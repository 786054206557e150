import CommonMeasure.Optimise.Removals

namespace CommonMeasure.Optimise

structure RemovedSource where
  reference : String
  duplicate_of : String
  tokens : Nat

structure SourceSpans where
  reference : String
  input_hash : String
  output_hash : String
  spans : List RemovedSpan

structure Detail where
  tokens_in : Nat
  tokens_out : Nat
  removed_sources : List RemovedSource
  removed_spans : List SourceSpans
  input : List String
  output : List String

def detail (sources : List Source) (t : Transformation) : Detail where
  tokens_in := (sources.map fun source => approximate_tokens source.text).sum
  tokens_out := (t.kept.map KeptSource.tokens_out).sum
  removed_sources := t.dropped.map fun source => ⟨source.envelope.source_url, source.duplicate_of, source.tokens⟩
  removed_spans := (t.kept.filter fun source => source.removed_spans ≠ []).map fun source =>
    ⟨source.envelope.source_url, source.input_hash, source.output_hash, source.removed_spans⟩
  input := sources.map fun source => source.envelope.source_url
  output := t.kept.map fun source => source.envelope.source_url

def removedBefore (spans : List RemovedSpan) (place : Nat) : Nat :=
  ((spans.filter fun span => span.stop ≤ place).map fun span => span.stop - span.start).sum

def Detail.spansOf (detail : Detail) (url : String) : List RemovedSpan :=
  ((detail.removed_spans.find? fun source => source.reference = url).map SourceSpans.spans).getD []

def Detail.outputOf (detail : Detail) (outputs : List (List Char)) (url : String) : List Char :=
  (((detail.output.zip outputs).find? fun named => named.1 = url).map Prod.snd).getD []

def Detail.held (detail : Detail) (outputs : List (List Char)) (origin : SpanOrigin) : List Char :=
  let place := origin.start - removedBefore (detail.spansOf origin.reference) origin.start
  (slice (detail.outputOf outputs origin.reference) place (place + (origin.stop - origin.start))).getD []

def restore (casing : Casing) (held : SpanOrigin → List Char) : Nat → List Char → List RemovedSpan → List (List Char)
  | _, output, [] => forms casing output
  | cursor, output, span :: spans =>
    forms casing ((takeBytes output (span.start - cursor)).getD []) ++ forms casing (held span.first_kept) ++
      restore casing held span.stop ((dropBytes output (span.start - cursor)).getD []) spans

def rebuild (casing : Casing) (detail : Detail) (outputs : List (List Char)) (url : String) : List (List Char) :=
  let kept := ((detail.removed_sources.find? fun source => source.reference = url).map RemovedSource.duplicate_of).getD url
  restore casing (detail.held outputs) 0 (detail.outputOf outputs kept) (detail.spansOf kept)

section

variable {casing : Casing} {text a b part : List Char} {spans : List RemovedSpan} {cursor start stop : Nat}

theorem forms_append (breaks : a = [] ∨ Breaks b) : forms casing (a ++ b) = forms casing a ++ forms casing b := by
  rcases breaks with rfl | breaks
  · rfl
  · rw [← wordsAt_forms (0 + byteLen a) b, forms, words, wordsAt_append breaks, List.map_append]
    rfl

theorem Parts.breaks (parts : Parts text start) (same : text = a ++ b) (place : byteLen a = start) : a = [] ∨ Breaks b := by
  obtain ⟨c, d, rfl, length, breaks⟩ := parts
  obtain ⟨rfl, rfl⟩ := append_inj_of_byteLen same (by rw [place, length])
  exact breaks

theorem exciseFrom_cons {span : RemovedSpan} (whole : text = a ++ b) (place : byteLen a = cursor)
    (lies : Lies text span.start span.stop part) (after : cursor ≤ span.start) :
    ∃ kept rest, b = kept ++ (part ++ rest) ∧ byteLen kept = span.start - cursor ∧ text = (a ++ kept ++ part) ++ rest ∧
      byteLen (a ++ kept ++ part) = span.stop ∧ byteLen (a ++ kept) = span.start ∧
      exciseFrom text cursor (span :: spans) = kept ++ exciseFrom text span.stop spans := by
  rw [whole] at lies
  obtain ⟨kept, rest, rfl, starts, ends⟩ := lies.beyond (by rw [place]; exact after)
  rw [place] at starts
  refine ⟨kept, rest, List.append_assoc _ _ _, by omega, by rw [whole]; simp, by simp only [byteLen_append]; omega,
    by rw [byteLen_append]; omega,
    ?_⟩
  have found : slice text cursor span.start = some kept :=
    slice_iff.mpr ⟨a, part ++ rest, by rw [whole]; simp, place, by omega⟩
  rw [exciseFrom, found, Option.getD_some]

theorem exciseFrom_nil (whole : text = a ++ b) (place : byteLen a = cursor) : exciseFrom text cursor [] = b := by
  have found : slice text cursor (byteLen text) = some b := slice_iff.mpr ⟨a, [], by rw [whole]; simp, place,
    by rw [whole]; simp [place]⟩
  rw [exciseFrom, found, Option.getD_some]

theorem restore_exciseFrom {held : SpanOrigin → List Char} (excised : Excised text spans)
    (same : ∀ span ∈ spans, ∀ part, Lies text span.start span.stop part →
      forms casing (held span.first_kept) = forms casing part)
    (whole : text = a ++ b) (place : byteLen a = cursor) (after : ∀ span ∈ spans, cursor ≤ span.start) :
    restore casing held cursor (exciseFrom text cursor spans) spans = forms casing b := by
  induction spans generalizing a b cursor with
  | nil => rw [restore, exciseFrom_nil whole place]
  | cons span spans ih =>
    obtain ⟨ordered, lies, parts⟩ := excised
    obtain ⟨part, found⟩ := lies span List.mem_cons_self
    obtain ⟨kept, rest, rfl, length, split, stops, starts, cut⟩ :=
      exciseFrom_cons whole place found (after span List.mem_cons_self)
    obtain ⟨first, later⟩ := List.pairwise_cons.mp ordered
    have tail := ih ⟨later, fun other listed => lies other (List.mem_cons_of_mem _ listed),
        fun other listed => parts other (List.mem_cons_of_mem _ listed)⟩
      (fun other listed => same other (List.mem_cons_of_mem _ listed)) split stops first
    rw [cut, restore, ← length, takeBytes_append, dropBytes_append, Option.getD_some, Option.getD_some, tail,
      same span List.mem_cons_self part found]
    have startsParted := (parts span List.mem_cons_self).1.breaks (a := a ++ kept) (b := part ++ rest) (by rw [split]; simp)
      starts
    have stopsParted := (parts span List.mem_cons_self).2.breaks split stops
    rw [forms_append (startsParted.imp_left fun none => (List.append_eq_nil_iff.mp none).2),
      forms_append (stopsParted.imp_left fun none => (List.append_eq_nil_iff.mp none).2), List.append_assoc]

theorem removedBefore_cons (span : RemovedSpan) (spans : List RemovedSpan) (place : Nat) :
    removedBefore (span :: spans) place =
      (if span.stop ≤ place then span.stop - span.start else 0) + removedBefore spans place := by
  unfold removedBefore
  split
  · rename_i ended
    rw [List.filter_cons_of_pos (by simpa using ended), List.map_cons, List.sum_cons]
  · rename_i goes
    rw [List.filter_cons_of_neg (by simpa using goes), Nat.zero_add]

theorem removedBefore_behind (behind : ∀ span ∈ spans, start ≤ span.start) : removedBefore spans start = 0 := by
  induction spans with
  | nil => rfl
  | cons span spans ih =>
    have := behind span List.mem_cons_self
    rw [removedBefore_cons, ih fun other listed => behind other (List.mem_cons_of_mem _ listed)]
    split <;> omega

theorem lies_exciseFrom (excised : Excised text spans) (whole : text = a ++ b) (place : byteLen a = cursor)
    (after : ∀ span ∈ spans, cursor ≤ span.start) (lies : Lies text start stop part) (ahead : cursor ≤ start)
    (apart : ∀ span ∈ spans, span.stop ≤ start ∨ stop ≤ span.start) :
    ∃ n, n + cursor + removedBefore spans start = start ∧ Lies (exciseFrom text cursor spans) n (n + (stop - start)) part := by
  induction spans generalizing a b cursor with
  | nil =>
    rw [whole] at lies
    obtain ⟨before, rest, rfl, starts, ends⟩ := lies.beyond (by rw [place]; exact ahead)
    rw [exciseFrom_nil whole place]
    exact ⟨byteLen before, by simp only [removedBefore, List.filter_nil, List.map_nil, List.sum_nil]; omega, before, rest, rfl,
      rfl, by omega⟩
  | cons span spans ih =>
    obtain ⟨ordered, found, parts⟩ := excised
    obtain ⟨removed, cutOut⟩ := found span List.mem_cons_self
    obtain ⟨kept, rest, rfl, length, split, stops, starts, cut⟩ :=
      exciseFrom_cons whole place cutOut (after span List.mem_cons_self)
    obtain ⟨first, later⟩ := List.pairwise_cons.mp ordered
    obtain ⟨_, _, _, _, sized⟩ := cutOut
    rw [cut]
    rcases apart span List.mem_cons_self with before | behind
    · obtain ⟨n, sum, inside⟩ := ih ⟨later, fun other listed => found other (List.mem_cons_of_mem _ listed),
          fun other listed => parts other (List.mem_cons_of_mem _ listed)⟩ split stops first before
        fun other listed => apart other (List.mem_cons_of_mem _ listed)
      refine ⟨byteLen kept + n, ?_, by rw [Nat.add_assoc]; exact inside.push kept⟩
      have ahead := after span List.mem_cons_self
      rw [removedBefore_cons, if_pos before]
      omega
    · have shorter : Lies (a ++ kept) start stop part := by
        rw [split, List.append_assoc] at lies
        exact lies.within (by rw [starts]; exact behind)
      obtain ⟨front, back, rfl, begins, ends⟩ := shorter.beyond (by rw [place]; exact ahead)
      refine ⟨byteLen front, ?_, front, back ++ exciseFrom text span.stop spans, by simp, rfl, by omega⟩
      have none : removedBefore (span :: spans) start = 0 := by
        refine removedBefore_behind fun other listed => ?_
        rcases List.mem_cons.mp listed with rfl | listed
        · omega
        · have := first other listed
          omega
      omega

end

theorem find_named {α : Type*} {f : α → String} {l : List α} (distinct : (l.map f).Nodup) {a : α} (listed : a ∈ l) :
    l.find? (fun b => f b = f a) = some a := by
  induction l with
  | nil => cases listed
  | cons b l ih =>
    rw [List.map_cons, List.nodup_cons] at distinct
    rcases List.mem_cons.mp listed with rfl | listed
    · simp
    · have other : f b ≠ f a := fun same => distinct.1 (same ▸ List.mem_map_of_mem listed)
      rw [List.find?_cons_of_neg (by simpa using other), ih distinct.2 listed]

theorem named_inj {α : Type*} {f : α → String} {l : List α} (distinct : (l.map f).Nodup) {a b : α} (one : a ∈ l) (other : b ∈ l)
    (same : f a = f b) : a = b := by
  have left := find_named distinct one
  rw [same, find_named distinct other] at left
  exact (Option.some_inj.mp left).symm

section

variable {t : Transformation} {sources : List Source} {kept : KeptSource}

theorem spansOf_kept (distinct : (t.kept.map fun kept => kept.envelope.source_url).Nodup) (listed : kept ∈ t.kept) :
    (detail sources t).spansOf kept.envelope.source_url = kept.removed_spans := by
  rw [Detail.spansOf, detail]
  dsimp only
  cases found : ((t.kept.filter fun source => source.removed_spans ≠ []).map fun source =>
      (⟨source.envelope.source_url, source.input_hash, source.output_hash, source.removed_spans⟩ : SourceSpans)).find?
        fun source => source.reference = kept.envelope.source_url with
  | none =>
    by_contra some_
    have spans : kept.removed_spans ≠ [] := fun none => some_ (by rw [none]; rfl)
    have inside : kept ∈ t.kept.filter fun source => source.removed_spans ≠ [] :=
      List.mem_filter.mpr ⟨listed, by simpa using spans⟩
    have refused := List.find?_eq_none.mp found _ (List.mem_map_of_mem inside)
    simp at refused
  | some source =>
    have named : source.reference = kept.envelope.source_url := by simpa using List.find?_some found
    obtain ⟨other, inside, rfl⟩ := List.mem_map.mp (List.mem_of_find?_eq_some found)
    obtain rfl := named_inj distinct (List.mem_filter.mp inside).1 listed named
    rfl

theorem outputOf_kept (distinct : (t.kept.map fun kept => kept.envelope.source_url).Nodup) (listed : kept ∈ t.kept) :
    (detail sources t).outputOf (t.kept.map KeptSource.text) kept.envelope.source_url = kept.text := by
  rw [Detail.outputOf, detail]
  dsimp only
  rw [List.zip_map', List.find?_map]
  have found := find_named distinct listed
  simp only [Function.comp_def, found, Option.map_some, Option.getD_some]

end

end CommonMeasure.Optimise
