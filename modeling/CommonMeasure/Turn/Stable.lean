import CommonMeasure.Foundation.Runs
import CommonMeasure.Turn.Reading

/-!
# What a longer transcript does not change

A call is opened by its first line, with the results carried and known then.
-/

namespace CommonMeasure.Turn

open Json

variable {Uuid Path : Type} [DecidableEq Uuid] [DecidableEq Path] {L : Libraries Uuid Path} {host : Host Uuid Path}

def opens (value : Value) : Option String :=
  if isTrue (value.get "isSidechain") || !isText (value.get "type") "assistant" ||
      isText ((value.get "message").get "model") "<synthetic>" then none
  else ((value.get "message").get "id").asStr

theorem insert_same {κ α : Type} [DecidableEq κ] (map : κ → Option α) (key : κ) (value : α) :
    insert map key value key = some value := if_pos rfl

theorem insert_other {κ α : Type} [DecidableEq κ] (map : κ → Option α) {key k : κ} (value : α) (other : k ≠ key) :
    insert map key value k = map k := if_neg other

/-! ### One line -/

structure Quiet (before after : Reading Uuid Path) : Prop where
  order : after.order = before.order
  calls : after.calls = before.calls
  known : ∃ more, after.known = before.known ++ more

omit [DecidableEq Uuid] [DecidableEq Path] in
theorem Quiet.refl (reading : Reading Uuid Path) : Quiet reading reading := ⟨rfl, rfl, [], (List.append_nil _).symm⟩

omit [DecidableEq Uuid] [DecidableEq Path] in
theorem Quiet.trans {a b c : Reading Uuid Path} (first : Quiet a b) (second : Quiet b c) : Quiet a c := by
  obtain ⟨more, grown⟩ := first.known
  obtain ⟨again, grownAgain⟩ := second.known
  exact ⟨second.order.trans first.order, second.calls.trans first.calls, more ++ again, by
    rw [grownAgain, grown, List.append_assoc]⟩

omit [DecidableEq Uuid] in
theorem arrive_quiet (written : Option Int) (reading : Reading Uuid Path) (block : Value) :
    Quiet reading (reading.arrive L host written block).1 := by
  unfold Reading.arrive
  split
  · exact .refl _
  · split
    · exact .refl _
    · split <;> first | exact .refl _ | exact ⟨rfl, rfl, [_], rfl⟩

theorem result_quiet (written : Option Int) (reading : Reading Uuid Path) (block : Value) :
    Quiet reading (reading.result L host written block) := by
  have quiet := @arrive_quiet _ _ _ L host written reading block
  unfold Reading.result
  generalize reading.arrive L host written block = arrived at quiet
  obtain ⟨after, _ | entered⟩ := arrived
  · exact quiet
  · exact ⟨quiet.order, quiet.calls, quiet.known⟩

theorem results_quiet (written : Option Int) (blocks : List Value) (reading : Reading Uuid Path) :
    Quiet reading (blocks.foldl (Reading.result L host written) reading) := by
  induction blocks generalizing reading with
  | nil => exact .refl _
  | cons block blocks ih => exact (result_quiet written reading block).trans (ih _)

omit [DecidableEq Uuid] [DecidableEq Path] in
theorem summarised_quiet (reading : Reading Uuid Path) (value : Value) : Quiet reading (reading.summarised value) := by
  unfold Reading.summarised
  split <;> exact ⟨rfl, rfl, [], (List.append_nil _).symm⟩

theorem line_cases (reading : Reading Uuid Path) (value : Value) :
    (opens value = none ∧ Quiet reading (reading.line L host value)) ∨
    ∃ id tools, opens value = some id ∧ reading.line L host value =
      Reading.extend { reading.summarised value with tools } id (timestamp L value)
        ((asArray ((value.get "message").get "content")).getD []) := by
  by_cases side : isTrue (value.get "isSidechain") = true
  · exact .inl ⟨by simp [opens, side], by simp [Reading.line, side, Quiet.refl]⟩
  by_cases boundary : (isText (value.get "type") "system" && isText (value.get "subtype") "compact_boundary") = true
  · left
    have system : (value.get "type").asStr = some "system" := by
      simpa [isText] using (Bool.and_eq_true_iff.mp boundary).1
    rw [Reading.line, if_neg side, if_pos boundary]
    exact ⟨by simp [opens, isText, system], rfl, rfl, [], (List.append_nil _).symm⟩
  by_cases assistant : isText (value.get "type") "assistant" = true
  · have quiet := summarised_quiet reading value
    have named : opens value = if isText ((value.get "message").get "model") "<synthetic>" then none
        else ((value.get "message").get "id").asStr := by
      simp [opens, side, assistant]
    rw [named, Reading.line, if_neg side, if_neg boundary, if_pos (Bool.or_eq_true_iff.mpr (.inr assistant)),
      Reading.message, if_pos assistant, Reading.answer]
    dsimp only
    cases ((value.get "message").get "id").asStr with
    | none => exact .inl ⟨ite_self _, quiet.order, quiet.calls, quiet.known⟩
    | some id =>
      dsimp only
      split
      · exact .inl ⟨rfl, quiet.order, quiet.calls, quiet.known⟩
      · exact .inr ⟨id, _, rfl, rfl⟩
  · left
    refine ⟨by simp [opens, assistant], ?_⟩
    rw [Reading.line, if_neg side, if_neg boundary]
    split
    · rw [Reading.message, if_neg assistant]
      exact (summarised_quiet reading value).trans (results_quiet _ _ _)
    · exact .refl _

structure Valid (reading : Reading Uuid Path) : Prop where
  once : reading.order.Nodup
  listed : ∀ id, id ∈ reading.order ↔ (reading.calls id).isSome
  known : ∀ id call, reading.calls id = some call → call.known ≤ reading.known.length

/-- What later lines leave of a reading: the calls it opened, in their order, each with more of its answer. -/
structure Later (before after : Reading Uuid Path) : Prop where
  order : ∃ ids, after.order = before.order ++ ids
  known : ∃ more, after.known = before.known ++ more

omit [DecidableEq Uuid] [DecidableEq Path] in
theorem Later.refl (reading : Reading Uuid Path) : Later reading reading :=
  ⟨⟨[], (List.append_nil _).symm⟩, [], (List.append_nil _).symm⟩

omit [DecidableEq Uuid] [DecidableEq Path] in
theorem Later.trans {a b c : Reading Uuid Path} (first : Later a b) (second : Later b c) : Later a c := by
  obtain ⟨⟨ids, order⟩, more, known⟩ := first
  obtain ⟨⟨ids', order'⟩, more', known'⟩ := second
  exact ⟨⟨ids ++ ids', by rw [order', order, List.append_assoc]⟩, more ++ more', by rw [known', known, List.append_assoc]⟩

omit [DecidableEq Uuid] [DecidableEq Path] in
theorem Valid.quiet {before after : Reading Uuid Path} (valid : Valid before) (quiet : Quiet before after) : Valid after := by
  obtain ⟨more, known⟩ := quiet.known
  refine ⟨quiet.order ▸ valid.once, fun id => quiet.order ▸ quiet.calls ▸ valid.listed id, fun id call held => ?_⟩
  rw [quiet.calls] at held
  have := valid.known id call held
  rw [known, List.length_append]
  omega

omit [DecidableEq Uuid] [DecidableEq Path] in
theorem extend_spec {reading : Reading Uuid Path} (valid : Valid reading) (id : String) (written : Option Int)
    (blocks : List Value) :
    Valid (reading.extend id written blocks) ∧ Later reading (reading.extend id written blocks) ∧
      ∀ other, other ≠ id → (reading.extend id written blocks).calls other = reading.calls other := by
  unfold Reading.extend
  cases held : reading.calls id with
  | some call =>
    refine ⟨⟨valid.once, fun other => ?_, fun other found is => ?_⟩, ⟨⟨[], (List.append_nil _).symm⟩, [],
      (List.append_nil _).symm⟩, fun other differs => insert_other _ _ differs⟩
    · dsimp only
      rw [valid.listed]
      by_cases same : other = id
      · rw [same, held, insert_same]
        rfl
      · rw [insert_other _ _ same]
    · dsimp only at is ⊢
      by_cases same : other = id
      · rw [same, insert_same] at is
        cases is
        exact valid.known id call held
      · rw [insert_other _ _ same] at is
        exact valid.known other found is
  | none =>
    have fresh : id ∉ reading.order := by
      rw [valid.listed, held]
      simp
    refine ⟨⟨?_, fun other => ?_, fun other found is => ?_⟩, ⟨⟨[id], rfl⟩, [], (List.append_nil _).symm⟩,
      fun other differs => insert_other _ _ differs⟩
    · exact List.nodup_append.mpr ⟨valid.once, List.nodup_singleton id, fun a listed b last same =>
        fresh (List.mem_singleton.mp last ▸ same ▸ listed)⟩
    · dsimp only
      by_cases same : other = id
      · rw [same, insert_same]
        simp
      · rw [insert_other _ _ same, ← valid.listed]
        simp [same]
    · dsimp only at is ⊢
      by_cases same : other = id
      · rw [same, insert_same] at is
        cases is
        exact Nat.le_refl _
      · rw [insert_other _ _ same] at is
        exact valid.known other found is

theorem line_spec {reading : Reading Uuid Path} (valid : Valid reading) (value : Value) :
    Valid (reading.line L host value) ∧ Later reading (reading.line L host value) ∧
      ∀ id, opens value ≠ some id → (reading.line L host value).calls id = reading.calls id := by
  obtain ⟨_, quiet⟩ | ⟨id, tools, opened, is⟩ := @line_cases _ _ _ _ L host reading value
  · obtain ⟨more, known⟩ := quiet.known
    exact ⟨valid.quiet quiet, ⟨⟨[], by rw [quiet.order, List.append_nil]⟩, more, known⟩, fun id _ => congrFun quiet.calls id⟩
  · have quiet := summarised_quiet reading value
    have noted : Quiet reading { reading.summarised value with tools } := ⟨quiet.order, quiet.calls, quiet.known⟩
    obtain ⟨kept, later, others⟩ := extend_spec (valid.quiet noted) id (timestamp L value)
      ((asArray ((value.get "message").get "content")).getD [])
    obtain ⟨ids, order⟩ := later.order
    obtain ⟨more, known⟩ := later.known
    obtain ⟨again, grown⟩ := noted.known
    rw [is]
    refine ⟨kept, ⟨⟨ids, by rw [order, noted.order]⟩, again ++ more, by rw [known, grown, List.append_assoc]⟩, ?_⟩
    intro other differs
    rw [others other fun same => differs (same ▸ opened), noted.calls]

omit [DecidableEq Uuid] [DecidableEq Path] in
theorem valid_opened : Valid (Reading.opened : Reading Uuid Path) :=
  ⟨List.nodup_nil, fun _ => by simp [Reading.opened], fun _ _ held => nomatch held⟩

def Line.carries (L : Libraries Uuid Path) (line : Line) (id : String) : Prop :=
  ∃ value, parse L line = .record value ∧ opens value = some id

theorem lines_spec {reading : Reading Uuid Path} (valid : Valid reading) (number : Nat) (lines : List Line) :
    let after := (reading.lines L host number lines).1
    Valid after ∧ Later reading after ∧
      ∀ id, (∀ line ∈ lines, ¬line.carries L id) → after.calls id = reading.calls id := by
  induction lines generalizing reading number with
  | nil => exact ⟨valid, .refl _, fun _ _ => rfl⟩
  | cons line lines ih =>
    rw [Reading.lines]
    cases parsed : parse L line with
    | blank =>
      obtain ⟨kept, later, others⟩ := ih valid (number + 1)
      exact ⟨kept, later, fun id apart => others id fun line listed => apart line (.tail _ listed)⟩
    | damaged => exact ⟨valid, .refl _, fun _ _ => rfl⟩
    | record value =>
      obtain ⟨kept, later, others⟩ := @line_spec _ _ _ _ L host reading valid value
      obtain ⟨kept', later', others'⟩ := ih kept (number + 1)
      refine ⟨kept', later.trans later', fun id apart => ?_⟩
      rw [others' id fun line listed => apart line (.tail _ listed)]
      exact others id fun opened => apart line (.head _) ⟨value, parsed, opened⟩

theorem lines_append (reading : Reading Uuid Path) (number : Nat) (lines more : List Line) :
    reading.lines L host number (lines ++ more) =
      match reading.lines L host number lines with
      | (after, some damaged) => (after, some damaged)
      | (after, none) => after.lines L host (number + lines.length) more := by
  induction lines generalizing reading number with
  | nil => rfl
  | cons line lines ih =>
    rw [List.cons_append, Reading.lines, Reading.lines]
    cases parse L line with
    | blank => simp only [ih, List.length_cons, Nat.add_assoc, Nat.add_comm 1]
    | damaged => rfl
    | record value => simp only [ih, List.length_cons, Nat.add_assoc, Nat.add_comm 1]

theorem filterMap_at {α β : Type} {f : α → Option β} {items : List α} (all : ∀ a ∈ items, (f a).isSome) (i : Nat) :
    (items.filterMap f)[i]? = items[i]?.bind f := by
  induction items generalizing i with
  | nil => rfl
  | cons a items ih =>
    obtain ⟨here, later⟩ := List.forall_mem_cons.mp all
    obtain ⟨b, is⟩ := Option.isSome_iff_exists.mp here
    rw [List.filterMap_cons, is]
    cases i with
    | zero => exact is.symm
    | succ i => exact ih later i

def outcome (L : Libraries Uuid Path) (host : Host Uuid Path) (transcript : List Line) : Reading Uuid Path × Option Nat :=
  Reading.opened.lines L host 0 transcript

theorem outcome_valid (transcript : List Line) : Valid (outcome L host transcript).1 :=
  (lines_spec valid_opened 0 transcript).1

def established (read : Reading Uuid Path × Option Nat) : List String :=
  if read.2.isSome then read.1.order.dropLast else read.1.order

omit [DecidableEq Uuid] [DecidableEq Path] in
theorem established_listed {read : Reading Uuid Path × Option Nat} {id : String} (listed : id ∈ established read) :
    id ∈ read.1.order := by
  unfold established at listed
  split at listed
  · exact List.mem_of_mem_dropLast listed
  · exact listed

theorem readings_at {transcript : List Line} {i : Nat} {id : String} {g : Generation Uuid} :
    (readings L host transcript)[i]? = some (id, g) ↔
      (established (outcome L host transcript))[i]? = some id ∧
        ∃ call, (outcome L host transcript).1.calls id = some call ∧
          g = call.generation L host (outcome L host transcript).1.known id := by
  have valid := @outcome_valid _ _ _ _ L host transcript
  have is : readings L host transcript = (established (outcome L host transcript)).filterMap fun id =>
      ((outcome L host transcript).1.calls id).map fun call =>
        (id, call.generation L host (outcome L host transcript).1.known id) := rfl
  have all : ∀ id ∈ established (outcome L host transcript), (((outcome L host transcript).1.calls id).map fun call =>
      (id, call.generation L host (outcome L host transcript).1.known id)).isSome := by
    intro id listed
    rw [Option.isSome_map]
    exact (valid.listed id).mp (established_listed listed)
  rw [is, filterMap_at all]
  constructor
  · intro found
    obtain ⟨id', there, made⟩ := Option.bind_eq_some_iff.mp found
    obtain ⟨call, held, both⟩ := Option.map_eq_some_iff.mp made
    obtain ⟨rfl, rfl⟩ := Prod.mk.inj both
    exact ⟨there, call, held, rfl⟩
  · rintro ⟨there, call, held, rfl⟩
    rw [there, Option.bind_some, held, Option.map_some]

theorem readings_length (transcript : List Line) :
    (readings L host transcript).length = (established (outcome L host transcript)).length := by
  have least : (readings L host transcript).length ≤ (established (outcome L host transcript)).length :=
    List.length_filterMap_le _ _
  by_contra differ
  obtain ⟨i, id, there, none_⟩ : ∃ i id, (established (outcome L host transcript))[i]? = some id ∧
      (readings L host transcript)[i]? = none :=
    ⟨(readings L host transcript).length, _, List.getElem?_eq_getElem (by omega), List.getElem?_eq_none (Nat.le_refl _)⟩
  have valid := @outcome_valid _ _ _ _ L host transcript
  obtain ⟨call, held⟩ := Option.isSome_iff_exists.mp
    ((valid.listed id).mp (established_listed (List.mem_of_getElem? there)))
  rw [readings_at.mpr ⟨there, call, held, rfl⟩] at none_
  cases none_

theorem outcome_append (transcript more : List Line) :
    outcome L host (transcript ++ more) =
      match outcome L host transcript with
      | (after, some damaged) => (after, some damaged)
      | (after, none) => after.lines L host transcript.length more := by
  unfold outcome
  rw [lines_append, Nat.zero_add]

theorem outcome_stopped {transcript : List Line} {damaged : Nat} (stopped : (outcome L host transcript).2 = some damaged)
    (more : List Line) : outcome L host (transcript ++ more) = outcome L host transcript := by
  rw [outcome_append]
  generalize outcome L host transcript = read at stopped ⊢
  obtain ⟨before, _⟩ := read
  obtain rfl : _ = some damaged := stopped
  rfl

theorem outcome_whole {transcript : List Line} (whole : (outcome L host transcript).2 = none) (more : List Line) :
    outcome L host (transcript ++ more) = (outcome L host transcript).1.lines L host transcript.length more := by
  rw [outcome_append]
  generalize outcome L host transcript = read at whole ⊢
  obtain ⟨before, _⟩ := read
  obtain rfl : _ = none := whole
  rfl

theorem outcome_later (transcript more : List Line) :
    Later (outcome L host transcript).1 (outcome L host (transcript ++ more)).1 ∧
      ∀ id, (∀ line ∈ more, ¬line.carries L id) →
        (outcome L host (transcript ++ more)).1.calls id = (outcome L host transcript).1.calls id := by
  cases stopped : (outcome L host transcript).2 with
  | some damaged =>
    rw [outcome_stopped stopped]
    exact ⟨.refl _, fun _ _ => rfl⟩
  | none =>
    rw [outcome_whole stopped]
    exact (lines_spec (outcome_valid transcript) transcript.length more).2

theorem generation_kept {transcript more : List Line} {id : String} {call : Call Uuid}
    (held : (outcome L host transcript).1.calls id = some call) (apart : ∀ line ∈ more, ¬line.carries L id) :
    (outcome L host (transcript ++ more)).1.calls id = some call ∧
      call.generation L host (outcome L host transcript).1.known id =
        call.generation L host (outcome L host (transcript ++ more)).1.known id := by
  obtain ⟨later, others⟩ := @outcome_later _ _ _ _ L host transcript more
  obtain ⟨known, grown⟩ := later.known
  refine ⟨(others id apart).trans held, ?_⟩
  have fits := (@outcome_valid _ _ _ _ L host transcript).known id call held
  rw [Call.generation, Call.generation, grown, List.take_append_of_le_length fits]

theorem readings_append {transcript more : List Line} {i : Nat} {id : String} {g : Generation Uuid}
    (read : (readings L host transcript)[i]? = some (id, g)) (apart : ∀ line ∈ more, ¬line.carries L id) :
    (readings L host (transcript ++ more))[i]? = some (id, g) ∨
      (outcome L host transcript).2 = none ∧ (outcome L host (transcript ++ more)).2.isSome ∧
        i + 1 = (readings L host transcript).length ∧ (readings L host (transcript ++ more)).length = i := by
  obtain ⟨there, call, held, rfl⟩ := readings_at.mp read
  obtain ⟨kept, same⟩ := generation_kept held apart
  rw [readings_length, readings_length]
  cases stopped : (outcome L host transcript).2 with
  | some damaged =>
    left
    refine readings_at.mpr ⟨?_, call, kept, same⟩
    rw [outcome_stopped stopped]
    exact there
  | none =>
    obtain ⟨ids, order⟩ := (@outcome_later _ _ _ _ L host transcript more).1.order
    have here : (outcome L host transcript).1.order[i]? = some id := by
      rw [established, stopped] at there
      exact there
    have within : i < (outcome L host transcript).1.order.length := (List.getElem?_eq_some_iff.mp here).1
    have after : (outcome L host (transcript ++ more)).1.order[i]? = some id := by
      rw [order, List.getElem?_append_left within, here]
    by_cases last : (outcome L host (transcript ++ more)).2.isSome ∧
      i + 1 = (outcome L host (transcript ++ more)).1.order.length
    · right
      obtain ⟨damaged, ends⟩ := last
      rw [order, List.length_append] at ends
      refine ⟨rfl, damaged, ?_, ?_⟩
      · rw [established, stopped]
        show i + 1 = (outcome L host transcript).1.order.length
        omega
      · rw [established, if_pos damaged, order, List.length_dropLast, List.length_append]
        omega
    · left
      refine readings_at.mpr ⟨?_, call, kept, same⟩
      rw [established]
      split
      · rename_i damaged
        have past := not_and.mp last damaged
        have bound := (List.getElem?_eq_some_iff.mp after).1
        rw [List.getElem?_dropLast, if_pos (by omega), after]
      · exact after

theorem readings_damaged {transcript : List Line} (whole : (outcome L host transcript).2 = none) {line : Line}
    (bad : parse L line = .damaged) (more : List Line) :
    readings L host (transcript ++ line :: more) = (readings L host transcript).dropLast ∧
      (outcome L host (transcript ++ line :: more)).2 = some (transcript.length + 1) := by
  have stops : outcome L host (transcript ++ line :: more) = ((outcome L host transcript).1, some (transcript.length + 1)) := by
    rw [outcome_whole whole, Reading.lines, bad]
  refine ⟨List.ext_getElem? fun i => ?_, by rw [stops]⟩
  apply Option.ext
  rintro ⟨id, g⟩
  rw [List.getElem?_dropLast, readings_length, readings_at, stops, established, established, whole]
  simp only [Option.isSome_some, if_true, Option.isSome_none, Bool.false_eq_true, if_false]
  rw [List.getElem?_dropLast]
  split
  · rw [readings_at, established, whole]
    rfl
  · simp

end CommonMeasure.Turn
