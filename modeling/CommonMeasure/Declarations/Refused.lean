import CommonMeasure.Declarations.Commuting
import CommonMeasure.Declarations.Removed

namespace CommonMeasure.Declarations

variable {Url : Type} (u : UrlCrate Url)

/-- The rules of the groups that name the token, and of the `*` groups where none does. -/
def RobotsFile.rulesFor (file : RobotsFile) (token : Text) : List AccessRule :=
  (if (file.named (to_ascii_lowercase token)).isEmpty then file.named STAR else file.named (to_ascii_lowercase token)).flatMap (·.rules)

def Disallowed (rules : List AccessRule) (reading : Text) : Prop :=
  ∃ rule ∈ rules, rule.allow = false ∧ rule.covers reading = true ∧
    ∀ other ∈ rules, other.covers reading = true → other.rank < rule.rank ∨ other.rank = rule.rank ∧ other.allow = false

theorem disallowed_iff {rules : List AccessRule} {readings : List Text} :
    Refuses (· ∈ rules) readings ↔ ∃ reading ∈ readings, Disallowed rules reading := by
  constructor
  · rintro ⟨reading, member, refused⟩
    obtain ⟨best, matched, refuses⟩ := longest_match_refuses.mpr refused
    obtain ⟨⟨among, covers⟩, least⟩ := longest_match_some matched
    refine ⟨reading, member, best, among, refuses, covers, fun other listed covered => ?_⟩
    rcases yields_iff.mp (least other listed covered) with shorter | ⟨same, allows⟩
    · exact Or.inl shorter
    · refine Or.inr ⟨same, ?_⟩
      by_contra allowed
      rw [allows (Bool.eq_true_of_not_eq_false allowed)] at refuses
      cases refuses
  · rintro ⟨reading, member, rule, among, refuses, covers, longest⟩
    refine ⟨reading, member, rule, among, refuses, covers, fun other listed allows covered => ?_⟩
    rcases longest other listed covered with shorter | ⟨_, disallows⟩
    · exact shorter
    · rw [allows] at disallows
      cases disallows

theorem read_readings_refused (file : RobotsFile) (token : Text) (readings : List Text) :
    (file.read_readings token (.ok readings)).crawlable = some false ↔ ∃ reading ∈ readings, Disallowed (file.rulesFor token) reading := by
  rw [← disallowed_iff]
  have among (groups : List Group) (name : Text) (wildcard : Bool) :
      (read_groups file groups name wildcard readings).crawlable = some false ↔
        Refuses (· ∈ groups.flatMap (·.rules)) readings := by
    rw [← not_iff_not, ← permitted_iff]
    simp [read_groups, permitted]
  have nothing : ¬Refuses (fun _ => False) readings := by
    rintro ⟨_, _, _, none_, _⟩
    cases none_
  by_cases names : (file.named (to_ascii_lowercase token)).isEmpty
  · by_cases stars : (file.named STAR).isEmpty
    · have empty : file.named STAR = [] := List.isEmpty_iff.mp stars
      simp [RobotsFile.read_readings, RobotsFile.rulesFor, names, empty, nothing]
    · simp only [RobotsFile.read_readings, RobotsFile.rulesFor, names, stars, if_true]
      exact among _ _ _
  · simp only [RobotsFile.read_readings, RobotsFile.rulesFor, names]
    exact among _ _ _

def refused (file : RobotsFile) (token target : Text) : Prop := (file.read u token target).crawlable = some false

theorem refused_iff (file : RobotsFile) (token target : Text) :
    refused u file token target ↔ (∃ error, matching_target_readings u target = .error error) ∨
      ∃ readings, matching_target_readings u target = .ok readings ∧
        ∃ reading ∈ readings, Disallowed (file.rulesFor token) reading := by
  unfold refused RobotsFile.read
  cases matching_target_readings u target with
  | error error => simp [RobotsFile.read_readings]
  | ok readings => simp [read_readings_refused]

section

variable {u} {carried : Char → Bool} (resolves : Resolves u carried)

include resolves

theorem query_free {path : Text} (all : Carried carried path) : '?' ∉ path := by
  intro inside
  have allowed := all _ inside
  rw [resolves.query] at allowed
  cases allowed

theorem target_form {path query : Text} (all : Carried carried path) (begins : ∀ c ∈ query.head?, c = '?') :
    matching_target (path ++ query) = matching_target path ++ matching_target query ∧
      target_path (matching_target (path ++ query)) = matching_target path ∧
      target_query (matching_target (path ++ query)) = matching_target query := by
  have free : ∀ c ∈ matching_target path, decide (c ≠ '?') = true := by
    intro c inside
    rw [decide_eq_true_iff]
    rintro rfl
    exact matching_target_free query_separates (query_free resolves all) inside
  cases query with
  | nil =>
    rw [List.append_nil, target_path, target_query, List.takeWhile_eq_self_iff.mpr free, List.dropWhile_eq_nil_iff.mpr free]
    exact ⟨(List.append_nil _).symm, rfl, rfl⟩
  | cons c query =>
    obtain rfl := begins c rfl
    have form : matching_target ('?' :: query) = '?' :: matching_target query :=
      matching_target_between query_separates [] query
    rw [matching_target_between query_separates, form, target_path, target_query, List.takeWhile_append_of_pos free,
      List.dropWhile_append_of_pos free]
    simp

theorem reading_readings {target other : Text} (path : Carried carried (target_path target)) {readings : List Text}
    (read : matching_target_readings u target = .ok readings) (member : other ∈ readings) :
    ∃ others, matching_target_readings u other = .ok others ∧ others ⊆ readings := by
  obtain ⟨whole, _, few⟩ := matching_target_readings_reached u target
  obtain ⟨_, _, all, _⟩ := whole readings read
  obtain ⟨first, reached, rfl⟩ := (all other).mp member
  have good := reached_carried resolves path reached
  have begins : ∀ c ∈ (target_query target).head?, c = '?' := by
    intro c first
    have stops := List.head?_dropWhile_not (fun c : Char => decide (c ≠ '?')) target
    rw [target_query] at first
    rw [first] at stops
    simpa using stops
  obtain ⟨_, at_path, at_query⟩ := target_form resolves good begins
  obtain ⟨whole_, _, few_⟩ := matching_target_readings_reached u (matching_target (first ++ target_query target))
  rw [at_path] at few_
  cases reads : matching_target_readings u (matching_target (first ++ target_query target)) with
  | error error =>
    have more := few_.mp ⟨error, reads⟩
    have lifted := ReachesMore.lift (fun form reached_ =>
      (reached_forms resolves good reached_).imp fun _ found => ⟨found.1, found.2.2⟩) more
    obtain ⟨_, failed⟩ := few.mpr (lifted.trans reached)
    rw [read] at failed
    cases failed
  | ok others =>
    refine ⟨others, rfl, fun reading listed => ?_⟩
    obtain ⟨_, _, all_, _⟩ := whole_ others reads
    obtain ⟨form, reached_, rfl⟩ := (all_ reading).mp listed
    rw [at_path] at reached_
    obtain ⟨second, from_, carried_, rfl⟩ := reached_forms resolves good reached_
    refine (all _).mpr ⟨second, reached.trans from_, ?_⟩
    rw [at_query, ← (target_form resolves carried_ begins).1, matching_target_idempotent]

end

/-- A page is refused when there are too many readings of it, or when for one of them the longest rule is a Disallow; so it is
refused wherever a page of one of its readings is. -/
theorem reading_refused (file : RobotsFile) (token : Text) :
    (∀ target, refused u file token target ↔ (∃ error, matching_target_readings u target = .error error) ∨
      ∃ readings, matching_target_readings u target = .ok readings ∧
        ∃ reading ∈ readings, Disallowed (file.rulesFor token) reading) ∧
    ∀ carried, Resolves u carried → ∀ target readings, Carried carried (target_path target) →
      matching_target_readings u target = .ok readings →
      ∀ other ∈ readings, refused u file token other → refused u file token target := by
  refine ⟨refused_iff u file token, ?_⟩
  intro carried resolves target readings path read other member refuses
  obtain ⟨others, reads, within⟩ := reading_readings resolves path read member
  rw [refused_iff] at refuses ⊢
  rcases refuses with ⟨error, failed⟩ | ⟨_, is, reading, listed, disallowed⟩
  · rw [reads] at failed
    cases failed
  · obtain rfl := Except.ok.inj (is.symm.trans reads)
    exact Or.inr ⟨readings, read, reading, within listed, disallowed⟩

def path_char (c : Char) : Bool := 33 ≤ c.toNat && c.toNat ≤ 126 && !"\"#<>?\\^`\x7b|\x7d".toList.contains c

def standardPaths : UrlCrate Unit := { pathsOnly with path_set := resolve }

theorem standard_resolves : Resolves standardPaths path_char where
  slash := by decide
  semicolon := by decide
  percent := by decide
  unreserved := by
    have all : ∀ b : Fin 256, is_unreserved (UInt8.ofFin b) = true → path_char (Char.ofUInt8 (UInt8.ofFin b)) = true := by
      decide +kernel
    exact fun octet => all octet.toFin
  query := by decide
  backslash := by decide
  path_set := fun _ _ => rfl

theorem reading_refused_encoded :
    refused standardPaths (parse_robots "User-agent: *\nDisallow: /private/\n".toList) bot "//private%2Fx?q".toList := by
  have read : matching_target_readings standardPaths "//private%2Fx?q".toList = .ok
      ["//private%2Fx?q".toList, "//private/x?q".toList, "/private%2Fx?q".toList, "/private/x?q".toList] := by
    decide
  have page : refused standardPaths (parse_robots "User-agent: *\nDisallow: /private/\n".toList) bot "/private/x?q".toList := by
    unfold refused
    decide
  exact (reading_refused standardPaths _ bot).2 path_char standard_resolves _ _ (List.all_eq_true.mp (by decide)) read _
    (by simp) page

end CommonMeasure.Declarations
