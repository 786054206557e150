import CommonMeasure.Declarations.Robots

/-!
# What a robots.txt says of access

A text's access records are its agents, its rules and what stands between them.
-/

namespace CommonMeasure.Declarations

inductive Access where
  | agent (name : Text)
  | rule (rule : AccessRule)
  | other
deriving DecidableEq

def Line.access : Line → Option Access
  | .blank => none
  | .unlabelled => none
  | .record label value =>
    if label = USER_AGENT then some (.agent (to_ascii_lowercase value))
    else if label = ALLOW ∨ label = DISALLOW then some (.rule { allow := label = ALLOW, pattern := value })
    else some .other

def accessOf (raws : List Text) : List Access := raws.filterMap fun raw => (read_line raw).access

def Access.isAgent : Access → Bool
  | .agent _ => true
  | _ => false

def Access.asRule : Access → Option AccessRule
  | .rule stated => some stated
  | _ => none

def lastList (before : List Access) : List Access := (before.rdropWhile (!·.isAgent)).rtakeWhile (·.isAgent)

def Owned (name : Text) (records : List Access) (rule : AccessRule) : Prop :=
  ∃ before after, records = before ++ .rule rule :: after ∧ .agent name ∈ lastList before

def Refuses (own : AccessRule → Prop) (readings : List Text) : Prop :=
  ∃ reading ∈ readings, ∃ rule, own rule ∧ rule.allow = false ∧ rule.covers reading = true ∧
    ∀ other, own other → other.allow = true → other.covers reading = true → other.rank < rule.rank

/-! ### The walk over the records -/

structure Walk where
  opened : Bool
  holds : Bool
deriving DecidableEq

def Walk.start : Walk := ⟨false, false⟩

def Walk.next (name : Text) (w : Walk) : Access → Walk
  | .agent other => ⟨true, (w.opened && w.holds) || other = name⟩
  | .rule _ => ⟨false, w.holds⟩
  | .other => ⟨false, w.holds⟩

def ruled (name : Text) : Walk → List Access → List AccessRule
  | _, [] => []
  | w, record :: records =>
    (if w.holds then record.asRule.toList else []) ++ ruled name (w.next name record) records

theorem ruled_append (name : Text) (w : Walk) (a b : List Access) :
    ruled name w (a ++ b) = ruled name w a ++ ruled name (a.foldl (Walk.next name) w) b := by
  induction a generalizing w with
  | nil => rfl
  | cons record a ih => simp [ruled, ih]

theorem walk_opened (name : Text) (before : List Access) :
    (before.foldl (Walk.next name) .start).opened = (before.getLast?.map (·.isAgent)).getD false := by
  rcases List.eq_nil_or_concat before with rfl | ⟨inner, last, rfl⟩
  · rfl
  · rw [List.concat_eq_append, List.foldl_append, List.getLast?_concat]
    cases last <;> rfl

theorem lastList_opened {before : List Access} (opened : (before.getLast?.map (·.isAgent)).getD false = true) :
    lastList before = before.rtakeWhile (·.isAgent) := by
  rcases List.eq_nil_or_concat before with rfl | ⟨inner, last, rfl⟩
  · rfl
  · rw [List.concat_eq_append, List.getLast?_concat] at opened
    rw [List.concat_eq_append, lastList, List.rdropWhile_concat_neg _ _ _ (by simpa using opened)]

theorem rtakeWhile_closed {before : List Access} (closed : (before.getLast?.map (·.isAgent)).getD false = false) :
    before.rtakeWhile (·.isAgent) = [] := by
  rcases List.eq_nil_or_concat before with rfl | ⟨inner, last, rfl⟩
  · rfl
  · rw [List.concat_eq_append, List.getLast?_concat] at closed
    rw [List.concat_eq_append, List.rtakeWhile_concat_neg _ _ _ (by simpa using closed)]

theorem walk_holds (name : Text) (before : List Access) :
    (before.foldl (Walk.next name) .start).holds = true ↔ .agent name ∈ lastList before := by
  induction before using List.reverseRecOn with
  | nil => simp [lastList, Walk.start]
  | append_singleton inner last ih =>
    rw [List.foldl_append]
    cases last with
    | agent other =>
      have taken : lastList (inner ++ [.agent other]) = inner.rtakeWhile (·.isAgent) ++ [.agent other] := by
        unfold lastList
        rw [List.rdropWhile_concat_neg _ _ _ (by simp [Access.isAgent]), List.rtakeWhile_concat_pos _ _ _ rfl]
      have turned : Access.agent name ∈ [Access.agent other] ↔ other = name := by
        rw [List.mem_singleton, Access.agent.injEq]
        exact eq_comm
      have opened := walk_opened name inner
      rw [taken, List.mem_append, turned]
      cases open_ : (inner.getLast?.map (·.isAgent)).getD false with
      | true => simp [Walk.next, opened, open_, ih, lastList_opened open_]
      | false => simp [Walk.next, opened, open_, rtakeWhile_closed open_]
    | rule rule =>
      have dropped : lastList (inner ++ [.rule rule]) = lastList inner := by
        unfold lastList
        rw [List.rdropWhile_concat_pos _ _ _ (by simp [Access.isAgent])]
      rw [dropped, ← ih]
      rfl
    | other =>
      have dropped : lastList (inner ++ [.other]) = lastList inner := by
        unfold lastList
        rw [List.rdropWhile_concat_pos _ _ _ (by simp [Access.isAgent])]
      rw [dropped, ← ih]
      rfl

theorem walk_names (name : Text) (before : List Access) :
    ((before.foldl (Walk.next name) .start).opened && (before.foldl (Walk.next name) .start).holds) = true ↔
      .agent name ∈ before.rtakeWhile (·.isAgent) := by
  rw [Bool.and_eq_true, walk_holds, walk_opened]
  cases open_ : (before.getLast?.map (·.isAgent)).getD false with
  | true => simp [lastList_opened open_]
  | false => simp [rtakeWhile_closed open_]

theorem mem_ruled {name : Text} {w : Walk} {records : List Access} {rule : AccessRule} :
    rule ∈ ruled name w records ↔
      ∃ before after, records = before ++ .rule rule :: after ∧ (before.foldl (Walk.next name) w).holds = true := by
  induction records generalizing w with
  | nil => simp [ruled]
  | cons record records ih =>
    rw [ruled, List.mem_append, ih]
    constructor
    · rintro (here | ⟨before, after, rfl, holds⟩)
      · split at here
        · rename_i holds
          cases record with
          | rule other =>
            obtain rfl : rule = other := by simpa [Access.asRule] using here
            exact ⟨[], records, rfl, holds⟩
          | agent => simp [Access.asRule] at here
          | other => simp [Access.asRule] at here
        · cases here
      · exact ⟨record :: before, after, rfl, holds⟩
    · rintro ⟨before, after, same, holds⟩
      cases before with
      | nil =>
        obtain ⟨rfl, rfl⟩ := List.cons.inj same
        exact Or.inl (by
          have held : w.holds = true := holds
          simp [held, Access.asRule])
      | cons first before =>
        obtain ⟨rfl, rfl⟩ := List.cons.inj same
        exact Or.inr ⟨before, after, rfl, holds⟩

theorem mem_ruled_start {name : Text} {records : List Access} {rule : AccessRule} :
    rule ∈ ruled name .start records ↔ Owned name records rule := by
  simp only [mem_ruled, walk_holds, Owned]

structure Party where
  agents : List Text
  rules : List AccessRule

def Group.party (group : Group) : Party := ⟨group.agents, group.rules⟩

structure Sketch where
  closed : List Party
  current : Option Party
  opened : Bool

def Sketch.start : Sketch := ⟨[], none, false⟩

def Sketch.parties (k : Sketch) : List Party := k.closed ++ k.current.toList

def Sketch.next (k : Sketch) : Access → Sketch
  | .agent name =>
    let k := if k.opened then k else ⟨k.parties, some ⟨[], []⟩, true⟩
    { k with current := k.current.map fun party => { party with agents := party.agents ++ [name] } }
  | .rule stated =>
    { k with opened := false, current := k.current.map fun party => { party with rules := party.rules ++ [stated] } }
  | .other => { k with opened := false }

def Parser.sketch (s : Parser) : Sketch := ⟨s.file.groups.map Group.party, s.current.map Group.party, s.agents_open⟩

theorem parties_sketch (s : Parser) : s.sketch.parties = s.pushed.groups.map Group.party := by
  cases current : s.current <;> simp [Parser.sketch, Sketch.parties, Parser.pushed, current]

theorem sketch_grouped (s : Parser) {change : Group → Group} (keeps : ∀ group, (change group).party = group.party) :
    (s.grouped change).sketch = s.sketch.next .other := by
  simp only [Parser.grouped, Parser.sketch, Sketch.next, Option.map_map]
  congr 1
  exact Option.map_congr fun group _ => keeps group

theorem sketch_scoped (s : Parser) {change : Group → Group} {global : RobotsFile → RobotsFile}
    (keeps : ∀ group, (change group).party = group.party) (site : ∀ file, (global file).groups = file.groups) :
    (s.scoped_record change global).sketch = s.sketch.next .other := by
  unfold Parser.scoped_record
  split
  · exact sketch_grouped s keeps
  · simp [Parser.sketch, Sketch.next, site]

theorem sketch_agent (s : Parser) (value : Text) :
    (s.user_agent value).sketch = s.sketch.next (.agent (to_ascii_lowercase value)) := by
  unfold Parser.user_agent
  cases opened : s.agents_open with
  | true => cases current : s.current <;> simp [Parser.sketch, Sketch.next, opened, current, Group.party]
  | false =>
    have parties := parties_sketch s
    simp only [Parser.sketch, opened] at parties
    simp [Parser.sketch, Sketch.next, opened, parties, Group.party, Group.default]

theorem sketch_step (s : Parser) (raw : Text) :
    (s.step raw).sketch = ((read_line raw).access.toList).foldl Sketch.next s.sketch := by
  unfold Parser.step Line.access
  cases read_line raw with
  | blank => rfl
  | unlabelled => rfl
  | record label value =>
    simp only
    by_cases agent : label = USER_AGENT
    · simpa [agent] using sketch_agent s value
    by_cases rule : label = ALLOW ∨ label = DISALLOW
    · cases current : s.current <;>
        simp [agent, rule, Parser.grouped, Parser.sketch, Sketch.next, current, Group.party]
    simp only [if_neg agent, if_neg rule, Option.toList_some, List.foldl_cons, List.foldl_nil]
    split
    · exact sketch_grouped s fun _ => rfl
    split
    · exact sketch_grouped s fun _ => rfl
    split
    · exact sketch_scoped s (fun _ => rfl) fun _ => rfl
    split
    · exact sketch_scoped s (fun _ => rfl) fun _ => rfl
    split <;> rfl

theorem sketch_lines (s : Parser) (raws : List Text) :
    (raws.foldl Parser.step s).sketch = (accessOf raws).foldl Sketch.next s.sketch := by
  induction raws generalizing s with
  | nil => rfl
  | cons raw raws ih =>
    rw [List.foldl_cons, ih, sketch_step]
    cases read : (read_line raw).access <;> simp [accessOf, read]

def merged (name : Text) (parties : List Party) : List AccessRule :=
  (parties.filter (·.agents.contains name)).flatMap (·.rules)

structure Tracks (name : Text) (k : Sketch) (records : List Access) : Prop where
  rules : merged name k.parties = ruled name .start records
  opened : k.opened = (records.foldl (Walk.next name) .start).opened
  holds : (k.current.any (·.agents.contains name)) = (records.foldl (Walk.next name) .start).holds
  fresh : k.opened = true → ∃ party, k.current = some party ∧ party.rules = []
  agents : (∃ party ∈ k.parties, name ∈ party.agents) ↔ .agent name ∈ records

theorem tracks_start (name : Text) : Tracks name .start [] := by
  constructor <;> simp [Sketch.start, Sketch.parties, merged, ruled, Walk.start]

theorem ruled_snoc (name : Text) (records : List Access) (record : Access) :
    ruled name .start (records ++ [record]) = ruled name .start records ++
      if (records.foldl (Walk.next name) .start).holds then record.asRule.toList else [] := by
  rw [ruled_append]
  simp [ruled]

theorem merged_append (name : Text) (a b : List Party) : merged name (a ++ b) = merged name a ++ merged name b := by
  simp [merged]

theorem merged_one (name : Text) (party : Party) : merged name [party] = if name ∈ party.agents then party.rules else [] := by
  by_cases names : name ∈ party.agents <;> simp [merged, names]

theorem Tracks.other {name : Text} {k : Sketch} {records : List Access} (track : Tracks name k records) :
    Tracks name (k.next .other) (records ++ [.other]) where
  rules := by
    have same : (k.next .other).parties = k.parties := rfl
    rw [ruled_snoc, same, track.rules]
    simp [Access.asRule]
  opened := by simp [Sketch.next, Walk.next]
  holds := by simpa [Sketch.next, Walk.next] using track.holds
  fresh := by simp [Sketch.next]
  agents := by
    have same : (k.next .other).parties = k.parties := rfl
    rw [same, track.agents]
    simp

theorem Tracks.rule {name : Text} {k : Sketch} {records : List Access} (track : Tracks name k records) (stated : AccessRule) :
    Tracks name (k.next (.rule stated)) (records ++ [.rule stated]) := by
  have rules := track.rules
  have holds := track.holds
  have agents := track.agents
  cases current : k.current with
  | none =>
    have same : (k.next (.rule stated)).parties = k.parties := by simp [Sketch.parties, Sketch.next, current]
    rw [current, Option.any_none] at holds
    refine ⟨?_, by simp [Sketch.next, Walk.next], ?_, by simp [Sketch.next], by simp [same, agents]⟩
    · simp [ruled_snoc, same, rules, ← holds]
    · simp [Sketch.next, Walk.next, current, holds]
  | some party =>
    have same : (k.next (.rule stated)).parties = k.closed ++ [⟨party.agents, party.rules ++ [stated]⟩] := by
      simp [Sketch.parties, Sketch.next, current]
    have before : k.parties = k.closed ++ [party] := by simp [Sketch.parties, current]
    rw [current, Option.any_some] at holds
    rw [before] at rules agents
    refine ⟨?_, by simp [Sketch.next, Walk.next], ?_, by simp [Sketch.next], ?_⟩
    · rw [ruled_snoc, same, ← rules, ← holds, merged_append, merged_append, merged_one, merged_one]
      by_cases names : name ∈ party.agents <;> simp [names, Access.asRule]
    · simpa [Sketch.next, Walk.next, current] using holds
    · simpa [same] using agents

theorem Tracks.agent {name : Text} {k : Sketch} {records : List Access} (track : Tracks name k records) (other : Text) :
    Tracks name (k.next (.agent other)) (records ++ [.agent other]) := by
  have stated : Access.agent name ∈ [Access.agent other] ↔ name = other := by
    rw [List.mem_singleton, Access.agent.injEq]
  have turned : decide (other = name) = decide (name = other) := decide_eq_decide.mpr eq_comm
  have opened := track.opened
  have rules := track.rules
  have holds := track.holds
  have agents := track.agents
  cases open_ : k.opened with
  | true =>
    obtain ⟨party, current, empty⟩ := track.fresh open_
    have same : (k.next (.agent other)).parties = k.closed ++ [⟨party.agents ++ [other], party.rules⟩] := by
      simp [Sketch.parties, Sketch.next, open_, current]
    have before : k.parties = k.closed ++ [party] := by simp [Sketch.parties, current]
    rw [current, Option.any_some] at holds
    rw [before] at rules agents
    refine ⟨?_, by simp [Sketch.next, Walk.next, open_], ?_, ?_, ?_⟩
    · rw [ruled_snoc, same, ← rules, merged_append, merged_append, merged_one, merged_one, empty]
      simp [Access.asRule]
    · simp [Sketch.next, Walk.next, open_, current, ← opened, ← holds, turned]
    · intro _
      exact ⟨{ party with agents := party.agents ++ [other] }, by simp [Sketch.next, open_, current], empty⟩
    · rw [List.mem_append, ← agents, stated, same]
      simp only [List.mem_append, List.mem_singleton, or_and_right, exists_or, exists_eq_left, or_assoc]
  | false =>
    have same : (k.next (.agent other)).parties = k.parties ++ [⟨[other], []⟩] := by
      simp [Sketch.parties, Sketch.next, open_]
    refine ⟨?_, by simp [Sketch.next, Walk.next, open_], ?_, ?_, ?_⟩
    · rw [ruled_snoc, same, ← rules, merged_append, merged_one]
      simp [Access.asRule]
    · simp [Sketch.next, Walk.next, open_, ← opened, turned]
    · intro _
      exact ⟨⟨[other], []⟩, by simp [Sketch.next, open_], rfl⟩
    · rw [List.mem_append, ← agents, stated, same]
      simp only [List.mem_append, List.mem_singleton, or_and_right, exists_or, exists_eq_left]

theorem Tracks.next {name : Text} {k : Sketch} {records : List Access} (track : Tracks name k records) (record : Access) :
    Tracks name (k.next record) (records ++ [record]) := by
  cases record with
  | other => exact track.other
  | rule stated => exact track.rule stated
  | agent other => exact track.agent other

theorem tracks_run (name : Text) (records : List Access) : Tracks name (records.foldl Sketch.next .start) records := by
  induction records using List.reverseRecOn with
  | nil => exact tracks_start name
  | append_singleton records record ih =>
    rw [List.foldl_append]
    exact ih.next record

theorem parsed_spec (text name : Text) :
    ((parse_robots text).named name).flatMap (·.rules) = ruled name .start (accessOf (lines text)) ∧
      ((parse_robots text).named name = [] ↔ .agent name ∉ accessOf (lines text)) := by
  have track := tracks_run name (accessOf (lines text))
  have sketch := sketch_lines .start (lines text)
  have parties : (parse_robots text).groups.map Group.party =
      ((accessOf (lines text)).foldl Sketch.next .start).parties := by
    rw [parse_robots, ← parties_sketch, sketch]
    rfl
  constructor
  · rw [← track.rules, ← parties, merged, List.filter_map, List.flatMap_map]
    rfl
  · rw [← track.agents, ← parties, RobotsFile.named, List.filter_eq_nil_iff]
    simp [Group.party]

/-! ### The decision -/

def permitted (rules : List AccessRule) (readings : List Text) : Bool := (decide_access rules readings).all (·.allow)

theorem yields_iff {a b : AccessRule} :
    a.yields b = true ↔ a.rank < b.rank ∨ a.rank = b.rank ∧ (a.allow = true → b.allow = true) := by
  unfold AccessRule.yields
  cases a.allow <;> cases b.allow <;> simp

theorem longest_match_some {rules : List AccessRule} {reading : Text} {best : AccessRule}
    (matched : longest_match rules reading = some best) :
    (best ∈ rules ∧ best.covers reading = true) ∧ ∀ other ∈ rules, other.covers reading = true → other.yields best = true := by
  have keep (covering : List AccessRule) (start : Option AccessRule) (ends : covering.foldl
      (fun best rule => some (best.elim rule fun kept => if kept.yields rule then rule else kept)) start = some best) :
      (best ∈ covering ∨ start = some best) ∧ (∀ other ∈ covering, other.yields best = true) ∧
        ∀ kept, start = some kept → kept.yields best = true := by
    induction covering generalizing start with
    | nil => exact ⟨Or.inr ends, by simp, fun kept is => by
        obtain rfl := Option.some.inj (is.symm.trans ends)
        exact yields_iff.mpr (Or.inr ⟨rfl, id⟩)⟩
    | cons rule covering ih =>
      obtain ⟨member, least, first⟩ := ih _ ends
      have held := first _ rfl
      cases start with
      | none =>
        refine ⟨Or.inl ?_, ?_, nofun⟩
        · rcases member with later | here
          · exact List.mem_cons_of_mem _ later
          · simp [← Option.some.inj here]
        · simpa using ⟨held, least⟩
      | some kept =>
        simp only [Option.elim_some] at member held
        by_cases yields : kept.yields rule = true
        · rw [if_pos yields] at member held
          refine ⟨Or.inl ?_, by simpa using ⟨held, least⟩, ?_⟩
          · rcases member with later | here
            · exact List.mem_cons_of_mem _ later
            · simp [← Option.some.inj here]
          · rintro kept_ is
            obtain rfl := Option.some.inj is
            rw [yields_iff] at yields held ⊢
            grind
        · rw [if_neg yields] at member held
          have other_yields : rule.yields best = true := by
            rw [yields_iff] at yields held ⊢
            grind
          refine ⟨?_, by simpa using ⟨other_yields, least⟩, ?_⟩
          · rcases member with later | here
            · exact Or.inl (List.mem_cons_of_mem _ later)
            · exact Or.inr here
          · rintro kept_ is
            obtain rfl := Option.some.inj is
            exact held
  obtain ⟨member, least, _⟩ := keep _ none matched
  rcases member with member | nothing
  · obtain ⟨inside, covers⟩ := List.mem_filter.mp member
    exact ⟨⟨inside, covers⟩, fun other among covered => least other (List.mem_filter.mpr ⟨among, covered⟩)⟩
  · cases nothing

theorem longest_match_none {rules : List AccessRule} {reading : Text} (none_ : longest_match rules reading = none) :
    ∀ rule ∈ rules, rule.covers reading = false := by
  intro rule member
  by_contra covers
  have inside : rule ∈ rules.filter (·.covers reading) := List.mem_filter.mpr ⟨member, Bool.eq_true_of_not_eq_false covers⟩
  obtain ⟨first, rest, cut⟩ := List.exists_cons_of_ne_nil (List.ne_nil_of_mem inside)
  have some_ (rest : List AccessRule) (start : AccessRule) : rest.foldl
      (fun best rule => some (best.elim rule fun kept => if kept.yields rule then rule else kept)) (some start) ≠ none := by
    induction rest generalizing start with
    | nil => simp
    | cons rule rest ih => exact ih _
  rw [longest_match, cut, List.foldl_cons] at none_
  exact some_ rest first none_

theorem longest_match_refuses {rules : List AccessRule} {reading : Text} :
    (∃ best, longest_match rules reading = some best ∧ best.allow = false) ↔
      ∃ rule ∈ rules, rule.allow = false ∧ rule.covers reading = true ∧
        ∀ other ∈ rules, other.allow = true → other.covers reading = true → other.rank < rule.rank := by
  constructor
  · rintro ⟨best, matched, refuses⟩
    obtain ⟨⟨member, covers⟩, least⟩ := longest_match_some matched
    refine ⟨best, member, refuses, covers, fun other among allows covered => ?_⟩
    have yields := yields_iff.mp (least other among covered)
    simp only [allows, refuses] at yields
    simpa using yields
  · rintro ⟨rule, member, refuses, covers, longest⟩
    cases matched : longest_match rules reading with
    | none => exact absurd covers (by simp [longest_match_none matched rule member])
    | some best =>
      refine ⟨best, rfl, ?_⟩
      obtain ⟨⟨among, covered⟩, least⟩ := longest_match_some matched
      have yields := yields_iff.mp (least rule member covers)
      by_contra allows
      have shorter := longest best among (Bool.eq_true_of_not_eq_false allows) covered
      omega

theorem permitted_iff {rules : List AccessRule} {readings : List Text} :
    permitted rules readings = true ↔ ¬ Refuses (· ∈ rules) readings := by
  have decided : permitted rules readings = true ↔
      ∀ reading ∈ readings, ∀ best, longest_match rules reading = some best → best.allow = true := by
    unfold permitted
    cases found : (readings.filterMap (longest_match rules)).find? (!·.allow) with
    | some best =>
      have refuses : best.allow = false := by simpa using List.find?_some found
      obtain ⟨reading, member, matched⟩ := List.mem_filterMap.mp (List.mem_of_find?_eq_some found)
      have first : decide_access rules readings = some best := by
        simp only [decide_access, found]
        rfl
      rw [first, Option.all_some, refuses]
      constructor
      · nofun
      · intro all
        rw [all reading member best matched] at refuses
        cases refuses
    | none =>
      have each := List.find?_eq_none.mp found
      have allowed (reading : Text) (member : reading ∈ readings) (best : AccessRule)
          (matched : longest_match rules reading = some best) : best.allow = true := by
        simpa using each best (List.mem_filterMap.mpr ⟨reading, member, matched⟩)
      have head : decide_access rules readings = (readings.filterMap (longest_match rules)).head? := by
        simp only [decide_access, found]
        rfl
      refine ⟨fun _ => allowed, fun _ => ?_⟩
      rw [head]
      cases first : (readings.filterMap (longest_match rules)).head? with
      | none => simp
      | some best =>
        obtain ⟨reading, member, matched⟩ := List.mem_filterMap.mp (List.mem_of_head? first)
        simpa using allowed reading member best matched
  rw [decided]
  constructor
  · rintro all ⟨reading, member, refused⟩
    obtain ⟨best, matched, refuses⟩ := longest_match_refuses.mpr refused
    rw [all reading member best matched] at refuses
    cases refuses
  · intro none_ reading member best matched
    by_contra allows
    exact none_ ⟨reading, member, longest_match_refuses.mp ⟨best, matched, Bool.eq_false_of_not_eq_true allows⟩⟩

def agentFor (token : Text) (records : List Access) : Text :=
  if .agent (to_ascii_lowercase token) ∈ records then to_ascii_lowercase token else STAR

theorem crawlable_eq (text token : Text) (readings : List Text) :
    ((parse_robots text).read_readings token (.ok readings)).crawlable =
      if .agent (agentFor token (accessOf (lines text))) ∈ accessOf (lines text) then
        some (permitted (ruled (agentFor token (accessOf (lines text))) .start (accessOf (lines text))) readings)
      else none := by
  have wanted := parsed_spec text (to_ascii_lowercase token)
  have star := parsed_spec text STAR
  by_cases names : .agent (to_ascii_lowercase token) ∈ accessOf (lines text)
  · have some_ : (parse_robots text).named (to_ascii_lowercase token) ≠ [] := fun none_ => wanted.2.mp none_ names
    simp [RobotsFile.read_readings, agentFor, names, some_, read_groups, permitted, wanted.1]
  · have none_ := wanted.2.mpr names
    by_cases stars : .agent STAR ∈ accessOf (lines text)
    · have some_ : (parse_robots text).named STAR ≠ [] := fun nothing => star.2.mp nothing stars
      simp [RobotsFile.read_readings, agentFor, names, none_, some_, stars, read_groups, permitted, star.1]
    · have nothing := star.2.mpr stars
      simp [RobotsFile.read_readings, agentFor, names, none_, nothing, stars]

end CommonMeasure.Declarations
