import CommonMeasure.Declarations.Records

namespace CommonMeasure.Declarations

variable {name : Text}

theorem ruled_agents (w : Walk) {list : List Access} (agents : ∀ record ∈ list, record.isAgent = true) (rest : List Access) :
    ruled name w (list ++ rest) = ruled name (list.foldl (Walk.next name) w) rest := by
  induction list generalizing w with
  | nil => rfl
  | cons record list ih =>
    rw [List.forall_mem_cons] at agents
    rw [List.cons_append, ruled, List.foldl_cons, ih _ agents.2]
    cases record with
    | agent => simp [Access.asRule]
    | rule => cases agents.1
    | other => cases agents.1

theorem walk_agents (w : Walk) {list : List Access} (agents : ∀ record ∈ list, record.isAgent = true) (some_ : list ≠ []) :
    list.foldl (Walk.next name) w = ⟨true, (w.opened && w.holds) || decide (.agent name ∈ list)⟩ := by
  induction list generalizing w with
  | nil => exact (some_ rfl).elim
  | cons record list ih =>
    rw [List.forall_mem_cons] at agents
    cases record with
    | rule => cases agents.1
    | other => cases agents.1
    | agent other =>
      by_cases none_ : list = []
      · subst none_
        simp [Walk.next, eq_comm]
      · rw [List.foldl_cons, ih _ agents.2 none_]
        simp [Walk.next, Bool.or_assoc, eq_comm]

def following (records : List Access) : List AccessRule := (records.takeWhile (!·.isAgent)).filterMap (·.asRule)

theorem ruled_closed (holds : Bool) (records : List Access) :
    ruled name ⟨false, holds⟩ records =
      (if holds then following records else []) ++ ruled name ⟨false, false⟩ (records.dropWhile (!·.isAgent)) := by
  induction records with
  | nil => simp [following, ruled]
  | cons record records ih =>
    cases record with
    | agent other => simp [following, ruled, Access.isAgent, Access.asRule, Walk.next]
    | rule stated =>
      rw [ruled, Walk.next, ih]
      cases holds <;> simp [following, Access.isAgent, Access.asRule]
    | other =>
      rw [ruled, Walk.next, ih]
      cases holds <;> simp [following, Access.isAgent, Access.asRule]

theorem ruled_opened (w : Walk) {records : List Access} (next : (records.head?.map (·.isAgent)).getD false = false) :
    ruled name w records = ruled name ⟨false, w.holds⟩ records := by
  cases records with
  | nil => rfl
  | cons record records =>
    cases record with
    | agent => cases next
    | rule => rfl
    | other => rfl

structure Divides (name : Text) (before after : List Access) : Prop where
  first : .agent name ∈ before.rtakeWhile (·.isAgent)
  second : after.takeWhile (·.isAgent) ≠ []
  apart : .agent name ∉ after.takeWhile (·.isAgent)

def divided (after : List Access) : List AccessRule := following (after.dropWhile (·.isAgent))

section

variable {before after : List Access}

theorem mem_takeWhile_agent {records : List Access} : ∀ record ∈ records.takeWhile (·.isAgent), record.isAgent = true :=
  fun _ member => List.mem_takeWhile_imp member

theorem head_dropWhile (records : List Access) :
    ((records.dropWhile (·.isAgent)).head?.map (·.isAgent)).getD false = false := by
  induction records with
  | nil => rfl
  | cons record records ih =>
    cases agent : record.isAgent with
    | true => simpa [agent] using ih
    | false => simp [agent]

theorem ruled_other (name : Text) (w : Walk) (after : List Access) :
    ruled name w (.other :: after) = ruled name ⟨false, w.holds⟩ after := by
  simp [ruled, Access.asRule, Walk.next]

theorem ruled_second (w : Walk) (some_ : after.takeWhile (·.isAgent) ≠ []) :
    ruled name w after = (if (w.opened && w.holds) || decide (.agent name ∈ after.takeWhile (·.isAgent)) then divided after else []) ++
      ruled name ⟨false, false⟩ ((after.dropWhile (·.isAgent)).dropWhile (!·.isAgent)) := by
  conv_lhs => rw [← @List.takeWhile_append_dropWhile _ (·.isAgent) after]
  rw [ruled_agents w mem_takeWhile_agent, walk_agents w mem_takeWhile_agent some_, ruled_opened _ (head_dropWhile after),
    ruled_closed]
  rfl

theorem ruled_undivided (whole : ¬ Divides name before after) :
    ruled name .start (before ++ .other :: after) = ruled name .start (before ++ after) := by
  rw [ruled_append, ruled_append, ruled_other]
  congr 1
  have names := walk_names name before
  generalize before.foldl (Walk.next name) .start = w at names ⊢
  by_cases some_ : after.takeWhile (·.isAgent) = []
  · refine (ruled_opened w ?_).symm
    cases after with
    | nil => rfl
    | cons record rest =>
      cases agent : record.isAgent with
      | true => simp [agent] at some_
      | false => simp [agent]
  · rw [ruled_second _ some_, ruled_second _ some_]
    by_cases inside : .agent name ∈ after.takeWhile (·.isAgent)
    · simp [inside]
    · have apart : (w.opened && w.holds) = false := by
        by_contra held
        exact whole ⟨names.mp (Bool.eq_true_of_not_eq_false held), some_, inside⟩
      simp [apart]

theorem mem_ruled_divided (divides : Divides name before after) {rule : AccessRule} :
    rule ∈ ruled name .start (before ++ after) ↔
      rule ∈ ruled name .start (before ++ .other :: after) ∨ rule ∈ divided after := by
  have names := (walk_names name before).mpr divides.first
  rw [ruled_append, ruled_append, ruled_other, ruled_second _ divides.second, ruled_second _ divides.second, names]
  simp only [if_true, divides.apart, decide_false, Bool.or_false, Bool.false_and, Bool.false_eq_true, if_false,
    List.mem_append, List.nil_append]
  tauto

end

def without (text : Text) (i : Nat) : Text := ((splitInclusive '\n' text).eraseIdx i).flatten

theorem lines_without (text : Text) (i : Nat) : lines (without text i) = (lines text).eraseIdx i := by
  rw [lines, without, cut_flatten ((splitInclusive_cut text).erase i), lines]
  exact (List.eraseIdx_map _ _ _).symm

def recordsBefore (text : Text) (i : Nat) : List Access := accessOf ((lines text).take i)

def recordsAfter (text : Text) (i : Nat) : List Access := accessOf ((lines text).drop (i + 1))

variable {Url : Type} (u : UrlCrate Url)

def crawlable (text token path : Text) : Option Bool := ((parse_robots text).read u token path).crawlable

theorem records_split {text raw label value : Text} {i : Nat} (line : (lines text)[i]? = some raw)
    (reads : read_line raw = .record label value) (agent : label ≠ USER_AGENT) (allow : label ≠ ALLOW) (disallow : label ≠ DISALLOW) :
    accessOf (lines text) = recordsBefore text i ++ .other :: recordsAfter text i ∧
      accessOf (lines (without text i)) = recordsBefore text i ++ recordsAfter text i := by
  obtain ⟨inside, is⟩ := List.getElem?_eq_some_iff.mp line
  have other : (read_line raw).access = some .other := by simp [reads, Line.access, agent, allow, disallow]
  constructor
  · conv_lhs => rw [← List.take_append_drop i (lines text), List.drop_eq_getElem_cons inside, is]
    simp [accessOf, recordsBefore, recordsAfter, other]
  · rw [lines_without, List.eraseIdx_eq_take_drop_succ, accessOf, List.filterMap_append]
    rfl

/-- A record that is no agent and no rule leaves a page's answer as it is, unless it divides a list of agents in two, of which
only the first names the agent, and the rules that follow turn the answer of some reading of the page. -/
theorem removed_iff {text token path raw label value : Text} {i : Nat} (line : (lines text)[i]? = some raw)
    (reads : read_line raw = .record label value) (agent : label ≠ USER_AGENT) (allow : label ≠ ALLOW) (disallow : label ≠ DISALLOW) :
    crawlable u (without text i) token path = crawlable u text token path ↔
      ∀ readings, matching_target_readings u path = .ok readings →
        Divides (agentFor token (accessOf (lines text))) (recordsBefore text i) (recordsAfter text i) →
          (Refuses (Owned (agentFor token (accessOf (lines text))) (accessOf (lines text))) readings ↔
            Refuses (fun rule => Owned (agentFor token (accessOf (lines text))) (accessOf (lines text)) rule ∨
              rule ∈ divided (recordsAfter text i)) readings) := by
  obtain ⟨whole, rest⟩ := records_split line reads agent allow disallow
  have named (name : Text) : .agent name ∈ accessOf (lines (without text i)) ↔ .agent name ∈ accessOf (lines text) := by
    simp [whole, rest]
  have same : agentFor token (accessOf (lines (without text i))) = agentFor token (accessOf (lines text)) := by
    simp only [agentFor, named]
  unfold crawlable RobotsFile.read
  cases matching_target_readings u path with
  | error too_many => simp [RobotsFile.read_readings]
  | ok readings =>
    rw [crawlable_eq, crawlable_eq, same]
    simp only [named]
    generalize agentFor token (accessOf (lines text)) = name
    by_cases divides : Divides name (recordsBefore text i) (recordsAfter text i)
    · have inside : .agent name ∈ accessOf (lines text) := by
        rw [whole]
        exact List.mem_append_left _ ((List.rtakeWhile_suffix _ _).subset divides.first)
      have gained (rule : AccessRule) : rule ∈ ruled name .start (accessOf (lines (without text i))) ↔
          Owned name (accessOf (lines text)) rule ∨ rule ∈ divided (recordsAfter text i) := by
        rw [rest, mem_ruled_divided divides, ← whole, mem_ruled_start]
      have kept (rule : AccessRule) : rule ∈ ruled name .start (accessOf (lines text)) ↔
          Owned name (accessOf (lines text)) rule := mem_ruled_start
      rw [if_pos inside, if_pos inside, Option.some.injEq, Bool.eq_iff_iff, permitted_iff, permitted_iff]
      simp only [gained, kept, divides, Except.ok.injEq, forall_eq', true_implies]
      tauto
    · have equal : ruled name .start (accessOf (lines (without text i))) = ruled name .start (accessOf (lines text)) := by
        rw [whole, rest, ruled_undivided divides]
      simp [equal, divides]

def pathsOnly : UrlCrate Unit where
  parse := fun _ => none
  path := fun _ => []
  query := fun _ => none
  host_str := fun _ => none
  domain := fun _ => none
  set_username := fun url _ => url
  set_password := fun url _ => url
  set_host := fun _ _ => none
  set_fragment := fun url _ => url
  before_path := fun _ => []
  from_path := fun _ => []
  scheme := fun _ => []
  port_or_known_default := fun _ => none
  set_path := fun url _ => url
  set_query := fun url _ => url
  to_string := fun _ => []
  join := fun _ _ => none
  path_set := id
  to_lowercase := to_ascii_lowercase

def divided_text : Text :=
  "User-agent: CommonMeasureBot\nSitemap: https://a.example/sitemap.xml\nUser-agent: SomeOtherBot\nDisallow: /\n".toList

def bot : Text := "CommonMeasureBot".toList

/-- A `Sitemap` line between two agents takes the `Disallow` away from the first. -/
theorem removed_changes :
    ∃ (text token path raw label value : Text) (i : Nat), (lines text)[i]? = some raw ∧ read_line raw = .record label value ∧
      label ≠ USER_AGENT ∧ label ≠ ALLOW ∧ label ≠ DISALLOW ∧
      crawlable pathsOnly text token path = some true ∧ crawlable pathsOnly (without text i) token path = some false :=
  ⟨divided_text, bot, "/news/1".toList, "Sitemap: https://a.example/sitemap.xml".toList, SITEMAP,
    "https://a.example/sitemap.xml".toList, 1, by decide, by decide, by decide, by decide,
    by decide, by decide, by decide⟩

theorem removed_after :
    crawlable pathsOnly (without ("User-agent: CommonMeasureBot\nSitemap: https://a.example/sitemap.xml\nDisallow: /\n".toList) 1) bot
        "/news/1".toList =
      crawlable pathsOnly ("User-agent: CommonMeasureBot\nSitemap: https://a.example/sitemap.xml\nDisallow: /\n".toList) bot
        "/news/1".toList :=
  (@removed_iff Unit pathsOnly _ _ _ "Sitemap: https://a.example/sitemap.xml".toList SITEMAP
    "https://a.example/sitemap.xml".toList 1 (by decide) (by decide) (by decide) (by decide)
    (by decide)).mpr fun _ _ divides => absurd divides.second (by decide)

end CommonMeasure.Declarations
