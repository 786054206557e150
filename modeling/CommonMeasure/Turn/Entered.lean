import CommonMeasure.Turn.Stable

/-!
# What a call's request carried

A call enters what results put in its request since the last compaction, each acquisition once, and it enters and cites
nothing that no result before it delivered.
-/

namespace CommonMeasure.Turn

open Json

variable {Uuid Path : Type} [DecidableEq Uuid] [DecidableEq Path] {L : Libraries Uuid Path} {host : Host Uuid Path}

/-! ### What a call's request carried -/

def firsts (arrivals : List (Entered Uuid)) : List (Entered Uuid) := arrivals.foldl enter []

theorem firsts_snoc (arrivals : List (Entered Uuid)) (entered : Entered Uuid) :
    firsts (arrivals ++ [entered]) = enter (firsts arrivals) entered := by
  rw [firsts, List.foldl_append]
  rfl

theorem firsts_spec (arrivals : List (Entered Uuid)) :
    ((firsts arrivals).map fun e => e.1.handle).Nodup ∧
      ∀ e, e ∈ firsts arrivals ↔ arrivals.find? (fun a => a.1.handle = e.1.handle) = some e := by
  induction arrivals using List.reverseRecOn with
  | nil => exact ⟨List.nodup_nil, fun e => by simp [firsts]⟩
  | append_singleton arrivals last ih =>
    obtain ⟨once, found⟩ := ih
    have held : (firsts arrivals).any (fun held => held.1.handle = last.1.handle) = true ↔
        (arrivals.find? fun a => a.1.handle = last.1.handle).isSome = true := by
      rw [List.any_eq_true, Option.isSome_iff_exists]
      constructor
      · rintro ⟨e, listed, same⟩
        have same : e.1.handle = last.1.handle := of_decide_eq_true same
        exact ⟨e, same ▸ (found e).mp listed⟩
      · rintro ⟨e, is⟩
        have same : e.1.handle = last.1.handle := by simpa using List.find?_some is
        exact ⟨e, (found e).mpr (by rw [same]; exact is), decide_eq_true same⟩
    rw [firsts_snoc, enter]
    split
    · rename_i already
      refine ⟨once, fun e => ?_⟩
      rw [found, List.find?_append]
      by_cases same : last.1.handle = e.1.handle
      · obtain ⟨first, is⟩ := Option.isSome_iff_exists.mp (held.mp already)
        rw [same] at is
        rw [is]
        rfl
      · simp [same]
    · rename_i fresh
      have none_ : arrivals.find? (fun a => a.1.handle = last.1.handle) = none := by
        rw [← Option.not_isSome_iff_eq_none, ← held]
        exact fresh
      refine ⟨?_, fun e => ?_⟩
      · rw [List.map_append, List.map_singleton]
        refine List.nodup_append.mpr ⟨once, List.nodup_singleton _, ?_⟩
        intro a listed b single same
        obtain ⟨e, among, rfl⟩ := List.mem_map.mp listed
        rw [List.mem_singleton.mp single] at same
        exact fresh (List.any_eq_true.mpr ⟨e, among, decide_eq_true same⟩)
      · rw [List.mem_append, found, List.mem_singleton, List.find?_append]
        by_cases same : last.1.handle = e.1.handle
        · rw [same] at none_
          rw [none_]
          simp [same, eq_comm]
        · have other : e ≠ last := fun is => same (is ▸ rfl)
          simp [same, other]

theorem firsts_append (a b : List (Entered Uuid)) : firsts (a ++ b) = b.foldl enter (firsts a) := List.foldl_append

def arrivals (L : Libraries Uuid Path) (host : Host Uuid Path) (written : Option Int) :
    Reading Uuid Path → List Value → List (Entered Uuid)
  | _, [] => []
  | reading, block :: blocks =>
    (reading.arrive L host written block).2.toList ++ arrivals L host written (reading.result L host written block) blocks

def Reading.compacts (reading : Reading Uuid Path) (value : Value) : Bool :=
  !isTrue (value.get "isSidechain") &&
    (isText (value.get "type") "system" && isText (value.get "subtype") "compact_boundary" ||
      (isText (value.get "type") "user" || isText (value.get "type") "assistant") &&
        isTrue (value.get "isCompactSummary") && !reading.after_boundary)

def Reading.arrived (L : Libraries Uuid Path) (host : Host Uuid Path) (reading : Reading Uuid Path) (value : Value) :
    List (Entered Uuid) :=
  if !isTrue (value.get "isSidechain") && isText (value.get "type") "user" then
    arrivals L host (timestamp L value) (reading.summarised value) ((asArray ((value.get "message").get "content")).getD [])
  else []

def since (L : Libraries Uuid Path) (host : Host Uuid Path) :
    Reading Uuid Path → List (Entered Uuid) → List Value → List (Entered Uuid)
  | _, held, [] => held
  | reading, held, value :: values =>
    since L host (reading.line L host value)
      ((if reading.compacts value then [] else held) ++ reading.arrived L host value) values

omit [DecidableEq Uuid] in
theorem arrive_window (written : Option Int) (reading : Reading Uuid Path) (block : Value) :
    (reading.arrive L host written block).1.window = reading.window := by
  unfold Reading.arrive
  split
  · rfl
  · split
    · rfl
    · split <;> rfl

theorem result_window (written : Option Int) (reading : Reading Uuid Path) (block : Value) :
    (reading.result L host written block).window =
      (reading.arrive L host written block).2.toList.foldl enter reading.window := by
  have kept := @arrive_window _ _ _ L host written reading block
  unfold Reading.result
  generalize reading.arrive L host written block = arrived at kept
  obtain ⟨after, _ | entered⟩ := arrived
  · exact kept
  · show enter after.window entered = _
    rw [kept]
    rfl

theorem results_window (written : Option Int) (blocks : List Value) (reading : Reading Uuid Path) :
    (blocks.foldl (Reading.result L host written) reading).window =
      (arrivals L host written reading blocks).foldl enter reading.window := by
  induction blocks generalizing reading with
  | nil => rfl
  | cons block blocks ih => rw [List.foldl_cons, ih, result_window, arrivals, List.foldl_append]

omit [DecidableEq Uuid] [DecidableEq Path] in
theorem summarised_window (reading : Reading Uuid Path) (value : Value) : (reading.summarised value).window =
    if isTrue (value.get "isCompactSummary") && !reading.after_boundary then [] else reading.window := by
  unfold Reading.summarised
  split <;> rfl

omit [DecidableEq Uuid] [DecidableEq Path] in
theorem extend_window (reading : Reading Uuid Path) (id : String) (written : Option Int) (blocks : List Value) :
    (reading.extend id written blocks).window = reading.window := by
  unfold Reading.extend
  split <;> rfl

omit [DecidableEq Uuid] [DecidableEq Path] in
theorem extend_calls (reading : Reading Uuid Path) (id : String) (written : Option Int) (blocks : List Value) :
    (reading.extend id written blocks).calls id = some (match reading.calls id with
      | some call => { call with blocks := call.blocks ++ blocks }
      | none => ⟨written, reading.window, reading.known.length, blocks⟩) := by
  unfold Reading.extend
  cases reading.calls id <;> exact insert_same _ _ _

omit [DecidableEq Uuid] [DecidableEq Path] in
theorem extend_known (reading : Reading Uuid Path) (id : String) (written : Option Int) (blocks : List Value) :
    (reading.extend id written blocks).known = reading.known := by
  unfold Reading.extend
  split <;> rfl

omit [DecidableEq Uuid] [DecidableEq Path] in
theorem summarised_known (reading : Reading Uuid Path) (value : Value) :
    (reading.summarised value).known = reading.known := by
  unfold Reading.summarised
  split <;> rfl

theorem line_window (reading : Reading Uuid Path) (value : Value) :
    (reading.line L host value).window =
      (reading.arrived L host value).foldl enter (if reading.compacts value then [] else reading.window) := by
  unfold Reading.line Reading.arrived Reading.compacts
  by_cases side : isTrue (value.get "isSidechain") = true
  · simp [side]
  by_cases boundary : (isText (value.get "type") "system" && isText (value.get "subtype") "compact_boundary") = true
  · have system : (value.get "type").asStr = some "system" := by
      simpa [isText] using (Bool.and_eq_true_iff.mp boundary).1
    have notUser : isText (value.get "type") "user" = false := by simp [isText, system]
    simp [side, boundary, notUser]
  by_cases assistant : isText (value.get "type") "assistant" = true
  · have notUser : isText (value.get "type") "user" = false := by
      have is : (value.get "type").asStr = some "assistant" := by simpa [isText] using assistant
      simp [isText, is]
    have answered : ∀ r : Reading Uuid Path, ∀ written message blocks,
        (r.answer L written message blocks).window = r.window := by
      intro r written message blocks
      rw [Reading.answer]
      split
      · rfl
      · split
        · rfl
        · exact extend_window _ _ _ _
    simp [side, boundary, assistant, notUser, Reading.message, answered, summarised_window]
  · by_cases user : isText (value.get "type") "user" = true
    · simp [side, boundary, assistant, user, Reading.message, results_window, summarised_window]
    · simp [side, boundary, assistant, user]

theorem since_window (values : List Value) {reading : Reading Uuid Path} {held : List (Entered Uuid)}
    (window : reading.window = firsts held) :
    (values.foldl (Reading.line L host) reading).window = firsts (since L host reading held values) := by
  induction values generalizing reading held with
  | nil => exact window
  | cons value values ih =>
    refine ih ?_
    rw [line_window, firsts_append]
    split
    · rfl
    · rw [window]

structure Held (reading : Reading Uuid Path) : Prop where
  window : ∀ e ∈ reading.window, e.1 ∈ reading.known
  saved : ∀ path e, reading.saved path = some e → e.1 ∈ reading.known

omit [DecidableEq Uuid] in
theorem Held.arrive {reading : Reading Uuid Path} (held : Held reading) (written : Option Int) (block : Value) :
    Held (reading.arrive L host written block).1 ∧
      ∀ e ∈ (reading.arrive L host written block).2, e.1 ∈ (reading.arrive L host written block).1.known := by
  have more : ∀ (a : Acquired Uuid), (∀ e ∈ reading.window, e.1 ∈ reading.known ++ [a]) ∧
      ∀ path e, reading.saved path = some e → e.1 ∈ reading.known ++ [a] := fun a =>
    ⟨fun e listed => List.mem_append_left _ (held.window e listed),
      fun path e is => List.mem_append_left _ (held.saved path e is)⟩
  unfold Reading.arrive
  split
  · exact ⟨held, fun e none_ => nomatch none_⟩
  · split
    · refine ⟨held, fun e entered => ?_⟩
      obtain ⟨found, _⟩ := Option.filter_eq_some_iff.mp entered
      unfold saved_at at found
      split at found
      · rename_i is
        cases found
        exact held.saved _ _ is
      · obtain ⟨path, _, is⟩ := Option.bind_eq_some_iff.mp found
        exact held.saved _ _ is
    · split
      · refine ⟨⟨(more _).1, (more _).2⟩, ?_⟩
        rintro e ⟨⟩
        exact List.mem_append_right _ (List.mem_singleton_self _)
      · refine ⟨⟨(more _).1, fun path e is => ?_⟩, fun e none_ => nomatch none_⟩
        dsimp only [insert] at is ⊢
        split at is
        · cases is
          exact List.mem_append_right _ (List.mem_singleton_self _)
        · exact (more _).2 path e is
      · exact ⟨⟨(more _).1, (more _).2⟩, fun e none_ => nomatch none_⟩
      · exact ⟨held, fun e none_ => nomatch none_⟩

theorem Held.result {reading : Reading Uuid Path} (held : Held reading) (written : Option Int) (block : Value) :
    Held (reading.result L host written block) := by
  obtain ⟨kept, arrived⟩ := @Held.arrive _ _ _ L host _ held written block
  unfold Reading.result
  generalize reading.arrive L host written block = arrival at kept arrived
  obtain ⟨after, _ | entered⟩ := arrival
  · exact kept
  · refine ⟨fun e listed => ?_, kept.saved⟩
    dsimp only [enter] at listed ⊢
    split at listed
    · exact kept.window e listed
    · obtain earlier | last := List.mem_append.mp listed
      · exact kept.window e earlier
      · exact List.mem_singleton.mp last ▸ arrived entered rfl

theorem Held.results (written : Option Int) (blocks : List Value) {reading : Reading Uuid Path} (held : Held reading) :
    Held (blocks.foldl (Reading.result L host written) reading) := by
  induction blocks generalizing reading with
  | nil => exact held
  | cons block blocks ih => exact ih (held.result written block)

omit [DecidableEq Uuid] [DecidableEq Path] in
theorem Held.summarised {reading : Reading Uuid Path} (held : Held reading) (value : Value) :
    Held (reading.summarised value) := by
  unfold Reading.summarised
  split
  · exact ⟨fun _ listed => (nomatch listed), held.saved⟩
  · exact ⟨held.window, held.saved⟩

omit [DecidableEq Uuid] [DecidableEq Path] in
theorem Held.extend {reading : Reading Uuid Path} (held : Held reading) (id : String) (written : Option Int)
    (blocks : List Value) : Held (reading.extend id written blocks) := by
  unfold Reading.extend
  split <;> exact ⟨held.window, held.saved⟩

theorem Held.line {reading : Reading Uuid Path} (held : Held reading) (value : Value) :
    Held (reading.line L host value) := by
  unfold Reading.line
  split
  · exact held
  split
  · exact ⟨fun _ listed => (nomatch listed), held.saved⟩
  split
  · unfold Reading.message
    dsimp only
    split
    · have noted : ∀ tools, Held { reading.summarised value with tools } :=
        fun tools => ⟨(held.summarised value).window, (held.summarised value).saved⟩
      unfold Reading.answer
      dsimp only
      split
      · exact noted _
      · split
        · exact noted _
        · exact (noted _).extend _ _ _
    · exact (held.summarised value).results _ _
  · exact held

omit [DecidableEq Uuid] [DecidableEq Path] in
theorem held_opened : Held (Reading.opened : Reading Uuid Path) := by
  refine ⟨fun e listed => ?_, fun path e is => ?_⟩
  · cases listed
  · cases is

theorem held_lines (lines : List Line) {reading : Reading Uuid Path} (held : Held reading) (number : Nat) :
    Held (reading.lines L host number lines).1 := by
  induction lines generalizing reading number with
  | nil => exact held
  | cons line lines ih =>
    rw [Reading.lines]
    split
    · exact ih held _
    · exact held
    · exact ih (held.line _) _

def records (L : Libraries Uuid Path) (lines : List Line) : List Value := lines.filterMap fun line =>
  match parse L line with
  | .record value => some value
  | _ => none

theorem outcome_snoc {transcript : List Line} (whole : (outcome L host transcript).2 = none) (line : Line) :
    outcome L host (transcript ++ [line]) =
      match parse L line with
      | .blank => ((outcome L host transcript).1, none)
      | .damaged => ((outcome L host transcript).1, some (transcript.length + 1))
      | .record value => ((outcome L host transcript).1.line L host value, none) := by
  rw [outcome_whole whole, Reading.lines]
  cases parse L line <;> rfl

theorem outcome_records {transcript : List Line} (whole : (outcome L host transcript).2 = none) :
    (outcome L host transcript).1 = (records L transcript).foldl (Reading.line L host) .opened := by
  induction transcript using List.reverseRecOn with
  | nil => rfl
  | append_singleton transcript line ih =>
    cases before : (outcome L host transcript).2 with
    | some damaged =>
      rw [outcome_stopped before, before] at whole
      cases whole
    | none =>
      rw [outcome_snoc before] at whole ⊢
      rw [records, List.filterMap_append, List.foldl_append, ← records, ← ih before]
      cases parsed : parse L line with
      | blank => simp [parsed]
      | damaged =>
        rw [parsed] at whole
        cases whole
      | record value => simp [parsed]

def Opened (L : Libraries Uuid Path) (host : Host Uuid Path) (transcript : List Line) (id : String)
    (entered : List (Entered Uuid)) (known : List (Acquired Uuid)) : Prop :=
  ∃ before line rest, transcript = before ++ line :: rest ∧ line.carries L id ∧ (∀ l ∈ before, ¬l.carries L id) ∧
    (outcome L host before).2 = none ∧ entered = firsts (since L host .opened [] (records L (before ++ [line]))) ∧
    known = (outcome L host before).1.known ∧ ∀ e ∈ entered, e.1 ∈ known

theorem Opened.extend {transcript : List Line} {id : String} {entered : List (Entered Uuid)} {known : List (Acquired Uuid)}
    (opened : Opened L host transcript id entered known) (more : List Line) :
    Opened L host (transcript ++ more) id entered known := by
  obtain ⟨before, line, rest, rfl, all⟩ := opened
  exact ⟨before, line, rest ++ more, by simp, all⟩

theorem carried_called {transcript : List Line} (whole : (outcome L host transcript).2 = none) {line : Line}
    (listed : line ∈ transcript) {id : String} (carries : line.carries L id) :
    ((outcome L host transcript).1.calls id).isSome := by
  induction transcript using List.reverseRecOn with
  | nil => cases listed
  | append_singleton transcript last ih =>
    cases before : (outcome L host transcript).2 with
    | some damaged =>
      rw [outcome_stopped before, before] at whole
      cases whole
    | none =>
      have snoc := @outcome_snoc _ _ _ _ L host _ before last
      have valid := @outcome_valid _ _ _ _ L host transcript
      have kept : line ∈ transcript → ((outcome L host transcript).1.calls id).isSome := fun among => ih before among
      obtain among | is := List.mem_append.mp listed
      · have valid' := @outcome_valid _ _ _ _ L host (transcript ++ [last])
        obtain ⟨_, later, _⟩ := @lines_spec _ _ _ _ L host _ valid 0 [last]
        have there := (valid.listed id).mpr (kept among)
        rw [← valid'.listed]
        rw [snoc]
        cases parsed : parse L last with
        | blank => exact there
        | damaged => exact there
        | record value =>
          obtain ⟨ids, order⟩ := (@line_spec _ _ _ _ L host _ valid value).2.1.order
          show id ∈ ((outcome L host transcript).1.line L host value).order
          rw [order]
          exact List.mem_append_left _ there
      · obtain rfl := List.mem_singleton.mp is
        obtain ⟨value, parsed, opens_⟩ := carries
        rw [snoc, parsed]
        show (((outcome L host transcript).1.line L host value).calls id).isSome
        obtain ⟨none_, _⟩ | ⟨other, tools, opens', is_⟩ := @line_cases _ _ _ _ L host (outcome L host transcript).1 value
        · rw [opens_] at none_
          cases none_
        · rw [opens_] at opens'
          obtain rfl := Option.some.inj opens'
          rw [is_, Reading.extend]
          split <;> simp [insert_same]

theorem opened_at (transcript : List Line) {id : String} {call : Call Uuid}
    (held : (outcome L host transcript).1.calls id = some call) :
    Opened L host transcript id call.entered ((outcome L host transcript).1.known.take call.known) := by
  induction transcript using List.reverseRecOn generalizing call with
  | nil => cases held
  | append_singleton transcript last ih =>
    cases before : (outcome L host transcript).2 with
    | some damaged =>
      rw [outcome_stopped before] at held ⊢
      exact (ih held).extend _
    | none =>
      have snoc := @outcome_snoc _ _ _ _ L host _ before last
      have valid := @outcome_valid _ _ _ _ L host transcript
      rw [snoc] at held ⊢
      cases parsed : parse L last with
      | blank =>
        rw [parsed] at held
        exact (ih held).extend _
      | damaged =>
        rw [parsed] at held
        exact (ih held).extend _
      | record value =>
        rw [parsed] at held
        obtain ⟨_, later, others⟩ := @line_spec _ _ _ _ L host _ valid value
        obtain ⟨more, known⟩ := later.known
        have kept : ∀ {old : Call Uuid}, (outcome L host transcript).1.calls id = some old →
            Opened L host (transcript ++ [last]) id old.entered
              (((outcome L host transcript).1.line L host value).known.take old.known) := by
          intro old is
          rw [known, List.take_append_of_le_length (valid.known id old is)]
          exact (ih is).extend _
        dsimp only at held ⊢
        by_cases own : opens value = some id
        · obtain ⟨none_, _⟩ | ⟨other, tools, opens_, is⟩ :=
            @line_cases _ _ _ _ L host (outcome L host transcript).1 value
          · rw [own] at none_
            cases none_
          rw [own] at opens_
          obtain rfl := Option.some.inj opens_
          have quiet := summarised_quiet (outcome L host transcript).1 value
          rw [is, extend_calls] at held
          dsimp only at held
          rw [quiet.calls] at held
          cases was : (outcome L host transcript).1.calls id with
          | some old =>
            rw [was] at held
            cases held
            exact @kept old was
          | none =>
            rw [was] at held
            cases held
            have knows : ((outcome L host transcript).1.line L host value).known = (outcome L host transcript).1.known := by
              rw [is, extend_known]
              exact summarised_known _ _
            have holds : Held (outcome L host transcript).1 := held_lines transcript held_opened 0
            refine ⟨transcript, last, [], rfl, ⟨value, parsed, own⟩, fun l among carries => ?_, before, ?_, ?_, ?_⟩
            · have called := carried_called before among carries
              rw [was] at called
              cases called
            · have all := @since_window _ _ _ _ L host (records L (transcript ++ [last])) .opened [] rfl
              rw [← all, records, List.filterMap_append, List.foldl_append, ← records, ← outcome_records before]
              simp only [List.filterMap_cons, parsed, List.filterMap_nil, List.foldl_cons, List.foldl_nil]
              rw [is, extend_window]
            · rw [knows]
              show List.take ((outcome L host transcript).1.summarised value).known.length _ = _
              rw [summarised_known, List.take_length]
            · intro e carried
              rw [knows]
              show e.1 ∈ List.take ((outcome L host transcript).1.summarised value).known.length _
              rw [summarised_known, List.take_length, ← summarised_known _ value]
              exact (holds.summarised value).window e carried
        · rw [others id own] at held
          exact kept held

theorem mem_readings {transcript : List Line} {id : String} {g : Generation Uuid}
    (listed : (id, g) ∈ readings L host transcript) :
    ∃ call, (outcome L host transcript).1.calls id = some call ∧
      g = call.generation L host (outcome L host transcript).1.known id := by
  obtain ⟨i, at_⟩ := List.getElem?_of_mem listed
  exact (readings_at.mp at_).2

structure Enters (L : Libraries Uuid Path) (host : Host Uuid Path) (before : List Line) (line : Line)
    (g : Generation Uuid) : Prop where
  once : (g.entered.map Prod.fst).Nodup
  exactly : ∀ handle hash, (handle, hash) ∈ g.entered ↔
    ∃ e, (since L host .opened [] (records L (before ++ [line]))).find? (fun e => e.1.handle = handle) = some e ∧ e.2 = hash
  delivered : ∀ handle ∈ g.entered.map Prod.fst ++ g.cited, ∃ a ∈ (outcome L host before).1.known, a.handle = handle

theorem readings_enter {transcript : List Line} {id : String} {g : Generation Uuid}
    (listed : (id, g) ∈ readings L host transcript) :
    ∃ before line rest, transcript = before ++ line :: rest ∧ line.carries L id ∧ (∀ l ∈ before, ¬l.carries L id) ∧
      Enters L host before line g := by
  obtain ⟨call, held, rfl⟩ := mem_readings listed
  obtain ⟨before, line, rest, whole, carries, first, _, entered, known, delivered⟩ := opened_at transcript held
  refine ⟨before, line, rest, whole, carries, first, ?_, fun handle hash => ?_, fun handle named => ?_⟩
  · rw [Call.generation, List.map_map]
    show (call.entered.map fun e => e.1.handle).Nodup
    rw [entered]
    exact (firsts_spec _).1
  · have found := fun e => (firsts_spec (since L host .opened [] (records L (before ++ [line])))).2 e
    rw [← entered] at found
    constructor
    · intro there
      obtain ⟨e, carried, is⟩ := List.mem_map.mp there
      obtain ⟨rfl, rfl⟩ := Prod.mk.inj is
      exact ⟨e, (found e).mp carried, rfl⟩
    · rintro ⟨e, is, rfl⟩
      have same : e.1.handle = handle := by simpa using List.find?_some is
      subst same
      exact List.mem_map.mpr ⟨e, (found e).mpr is, rfl⟩
  · have carried : ∀ handle, handle ∈ call.entered.map (fun e => e.1.handle) →
        ∃ a ∈ (outcome L host before).1.known, a.handle = handle := by
      intro handle listed
      obtain ⟨e, among, rfl⟩ := List.mem_map.mp listed
      exact ⟨e.1, known ▸ delivered e among, rfl⟩
    obtain inRequest | citing := List.mem_append.mp named
    · rw [Call.generation, List.map_map] at inRequest
      exact carried handle inRequest
    · obtain byRequest | byKnown := List.mem_append.mp (mem_cited L citing)
      · exact carried handle byRequest
      · rw [known] at byKnown
        exact List.mem_map.mp byKnown

end CommonMeasure.Turn
