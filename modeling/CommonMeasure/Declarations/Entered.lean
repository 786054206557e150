import CommonMeasure.Declarations.Licences

/-!
# Every licence the source names is entered

`Source` says where a probe of a licence comes from and `Reads` what an entry says of it.
-/

namespace CommonMeasure.Declarations

section

variable {Url W Licence Terms Statement : Type} {u : UrlCrate Url} {lossy : Bytes → Text} {attribution : RobotsOutcome → Text}
  {reader : LicenceReader Licence Terms Statement} {edge : Edge W}

/-! ### Where a probe comes from -/

/-- A probe of a licence: one the record held that was current, one a request gave, or one that was not sent. -/
inductive Source (lossy : Bytes → Text) (edge : Edge W) (held : Text → Option Probe) (since : Int) (url : Text)
    (probe : Probe) : Prop
  | current (is : held url = some probe) (at_ : probe.url = url) (alive : since < probe.expires_at)
  | asked (now : Int) (world : W) (is : fresh_probe lossy url now .licence (edge.probe url .ruled world).1 = some probe)
  | unsent (empty : probe.body = none) (failed : probe.error ≠ none)

def Keeps (lossy : Bytes → Text) (edge : Edge W) (held : Text → Option Probe) (since : Int) (record : HostRecord) : Prop :=
  ∀ url probe, record.licences url = some probe → held url = some probe ∨ Source lossy edge held since url probe

variable {held : Text → Option Probe} {since now : Int} {url page_url : Text} {pass : Pass u reader W}

theorem live_source {record : HostRecord} {probe : Probe} (keeps : Keeps lossy edge held since record) (later : since ≤ now)
    (alive : live (record.licences url) url now .licence = some probe) : Source lossy edge held since url probe := by
  obtain ⟨slot, holds⟩ := Option.filter_eq_some_iff.mp alive
  simp only [Bool.and_eq_true, decide_eq_true_eq] at holds
  rcases keeps url probe slot with first | source
  · exact .current first holds.1.1 (by omega)
  · exact source

theorem keeps_put {record : HostRecord} (keeps : Keeps lossy edge held since record) {slot : Option Probe}
    (source : ∀ probe, slot = some probe → held url = some probe ∨ Source lossy edge held since url probe) :
    Keeps lossy edge held since { record with licences := Function.update record.licences url slot } := by
  intro other probe is
  by_cases same : other = url
  · subst same
    exact source probe (by simpa using is)
  · exact keeps other probe (by simpa [Function.update_of_ne same] using is)

theorem cached_probe_source {record : HostRecord} {reserve : Option Nat} {world : W} {probed : Probed × W}
    (keeps : Keeps lossy edge held since record) (later : since ≤ now)
    (probes : edge.cached_probe lossy (record.licences url) url now reserve .licence world = some probed) :
    Source lossy edge held since url probed.1.probe ∧
      ∀ probe, probed.1.slot = some probe → held url = some probe ∨ Source lossy edge held since url probe := by
  unfold Edge.cached_probe at probes
  cases alive : live (record.licences url) url now .licence with
  | some existing =>
    rw [alive] at probes
    obtain rfl := Option.some.inj probes
    exact ⟨live_source keeps later alive, keeps url⟩
  | none =>
    rw [alive] at probes
    cases turn : edge.turn reserve url now world with
    | mk taken world =>
      rw [turn] at probes
      cases taken with
      | error reason =>
        obtain rfl := Option.some.inj probes
        have unasked : Source lossy edge held since url (unsent url now now reason) := .unsent rfl (by simp [unsent])
        exact ⟨unasked, fun probe is => Or.inr (Option.some.inj is ▸ unasked)⟩
      | ok sent =>
        obtain ⟨fresh, is, rfl⟩ := Option.map_eq_some_iff.mp probes
        have asked : Source lossy edge held since url fresh := .asked sent world is
        refine ⟨asked, fun probe kept => Or.inr ?_⟩
        unfold Probe.kept at kept
        split at kept
        · cases kept
        · exact Option.some.inj kept ▸ asked

theorem read_robots_licences {record : HostRecord} {world : W} {read : RobotsIn × W}
    (reads : edge.read_robots_in u lossy record url now world = some read) : read.1.record.licences = record.licences := by
  obtain ⟨robots, is, rfl⟩ := Option.map_eq_some_iff.mp reads
  obtain ⟨probed, _, rest⟩ := Option.bind_eq_some_iff.mp is
  obtain rfl := Option.some.inj rest
  rfl

theorem rule_probe_licences {ruled : ProbeRuling × Pass u reader W}
    (rules : pass.rule_probe lossy attribution edge page_url url now = some ruled) : ruled.2.record.licences = pass.record.licences := by
  unfold Pass.rule_probe at rules
  split at rules
  · obtain ⟨read, is, rfl⟩ := Option.map_eq_some_iff.mp rules
    exact read_robots_licences is
  · obtain ⟨read, _, rfl⟩ := Option.map_eq_some_iff.mp rules
    rfl

theorem probe_licence_source {reserve : Option Nat} {probed : Probed × Pass u reader W}
    (keeps : Keeps lossy edge held since pass.record) (later : since ≤ now)
    (probes : pass.probe_licence lossy edge url now reserve = some probed) :
    Source lossy edge held since url probed.1.probe ∧ Keeps lossy edge held since probed.2.record := by
  obtain ⟨slot, is, rfl⟩ := Option.map_eq_some_iff.mp probes
  obtain ⟨source, leaves⟩ := cached_probe_source keeps later is
  exact ⟨source, keeps_put keeps leaves⟩

theorem named_probe_source {reserve : Option Nat} {answer : Probe × CacheDecision × Pass u reader W}
    (keeps : Keeps lossy edge held since pass.record) (later : since ≤ now)
    (probes : pass.named_licence_probe lossy attribution edge page_url url now reserve = some answer) :
    Source lossy edge held since url answer.1 ∧ Keeps lossy edge held since answer.2.2.record := by
  unfold Pass.named_licence_probe at probes
  cases alive : live (pass.record.licences url) url now .licence with
  | some existing =>
    rw [alive] at probes
    obtain rfl := Option.some.inj probes
    exact ⟨live_source keeps later alive, keeps⟩
  | none =>
    simp only [alive] at probes
    have not_sent (expires_at : Int) (reason : Text) (refused_by : Option Text) :
        Source lossy edge held since url { unsent url now expires_at reason with refused_by } := .unsent rfl (by simp [unsent])
    by_cases fetches : fetchable u url = true
    · rw [if_pos fetches] at probes
      obtain ⟨ruled, rules, probes⟩ := Option.bind_eq_some_iff.mp probes
      have keeps_ruled : Keeps lossy edge held since ruled.2.record := by
        intro other probe is
        rw [rule_probe_licences rules] at is
        exact keeps other probe is
      cases ruling : ruled.1 with
      | allowed =>
        simp only [ruling] at probes
        obtain ⟨probed, is, rest⟩ := Option.bind_eq_some_iff.mp probes
        obtain rfl := Option.some.inj rest
        exact probe_licence_source keeps_ruled later is
      | refused reason expires_at =>
        simp only [ruling] at probes
        obtain rfl := Option.some.inj probes
        refine ⟨not_sent expires_at reason (some REFUSED_BY_ROBOTS), keeps_put keeps_ruled fun probe is => ?_⟩
        obtain ⟨_, same⟩ := Option.ite_none_right_eq_some.mp is
        exact Or.inr (Option.some.inj same ▸ not_sent expires_at reason (some REFUSED_BY_ROBOTS))
      | unread reason =>
        simp only [ruling] at probes
        obtain rfl := Option.some.inj probes
        exact ⟨not_sent now reason none, keeps_put keeps_ruled (by simp)⟩
    · rw [if_neg fetches] at probes
      obtain rfl := Option.some.inj probes
      exact ⟨not_sent now OTHER_SCHEME_LICENCE none, keeps⟩

inductive Reads (u : UrlCrate Url) (reader : LicenceReader Licence Terms Statement) (page_url : Text) (probe : Probe)
    (entry : LicenceOutcome Terms) : Prop
  | missing (status : Nat) (empty : probe.body = none) (clean : probe.error = none) (is : probe.status = some status)
      (gone : licence_is_missing status = true) (named : entry.missing.isSome = true) (answered : entry.status = some status)
      (no_terms : entry.terms = none) (read : entry.unread = false)
  | unread (empty : probe.body = none) (unread : entry.unread = true) (no_terms : entry.terms = none)
  | body (body : Text) (is : probe.body = some body)
      (content : entry.content = (BodyReading.of u reader body entry.url page_url).content)
      (terms : entry.terms = (BodyReading.of u reader body entry.url page_url).terms)
      (unread : entry.unread = (BodyReading.of u reader body entry.url page_url).unread)

def Founded (lossy : Bytes → Text) (edge : Edge W) (u : UrlCrate Url) (reader : LicenceReader Licence Terms Statement)
    (held : Text → Option Probe) (since : Int) (page_url : Text) (entry : LicenceOutcome Terms) : Prop :=
  ∃ probe, Source lossy edge held since entry.url probe ∧ Reads u reader page_url probe entry

theorem licence_outcome_spec {probe : Probe} {cache : CacheDecision} {mechanism : LicenceMechanism} (pass : Pass u reader W) :
    let read := licence_outcome probe cache url mechanism page_url now pass
    read.outcome.url = url ∧ read.pass.record = pass.record ∧ Reads u reader page_url probe read.outcome := by
  cases body : probe.body with
  | none =>
    cases error : probe.error with
    | some reason =>
      simp only [licence_outcome, body, error]
      exact ⟨trivial, trivial, .unread body rfl rfl⟩
    | none =>
      cases gone : probe.status.filter licence_is_missing with
      | none =>
        simp only [licence_outcome, body, error, gone]
        exact ⟨trivial, trivial, .unread body rfl rfl⟩
      | some status =>
        simp only [licence_outcome, body, error, gone]
        obtain ⟨is, missing⟩ := Option.filter_eq_some_iff.mp gone
        exact ⟨trivial, trivial, .missing status body error is missing rfl is rfl rfl⟩
  | some text =>
    have same := read_of_eq pass.readings url page_url text
    simp only [licence_outcome, body]
    exact ⟨trivial, trivial, .body text body (by rw [same]) (by rw [same]) (by rw [same])⟩

structure Read (edge : Edge W) (lossy : Bytes → Text) (held : Text → Option Probe) (since : Int) (url page_url : Text)
    (read : LicenceRead u reader W) : Prop where
  named : read.outcome.url = url
  founded : Founded lossy edge u reader held since page_url read.outcome
  keeps : Keeps lossy edge held since read.pass.record

theorem read_spec {mechanism : LicenceMechanism} {probe : Probe} {cache : CacheDecision}
    (source : Source lossy edge held since url probe) (keeps : Keeps lossy edge held since pass.record) :
    Read edge lossy held since url page_url (licence_outcome probe cache url mechanism page_url now pass) := by
  obtain ⟨named, record, reads⟩ := @licence_outcome_spec _ W _ _ _ u reader now url page_url probe cache mechanism pass
  exact ⟨named, ⟨probe, by rw [named]; exact source, reads⟩, by rw [record]; exact keeps⟩

theorem read_named_spec {mechanism : LicenceMechanism} {reserve : Option Nat} {read : LicenceRead u reader W}
    (keeps : Keeps lossy edge held since pass.record) (later : since ≤ now)
    (reads : pass.read_named lossy attribution edge url mechanism page_url now reserve = some read) :
    Read edge lossy held since url page_url read := by
  obtain ⟨answer, is, rfl⟩ := Option.map_eq_some_iff.mp reads
  obtain ⟨source, kept⟩ := named_probe_source keeps later is
  exact read_spec source kept

theorem read_robots_licence_spec {reserve : Option Nat} {read : LicenceRead u reader W}
    (keeps : Keeps lossy edge held since pass.record) (later : since ≤ now)
    (reads : pass.read_robots_licence lossy attribution edge url page_url now reserve = some read) :
    Read edge lossy held since url page_url read := by
  unfold Pass.read_robots_licence at reads
  split at reads
  · obtain ⟨probed, is, rfl⟩ := Option.map_eq_some_iff.mp reads
    obtain ⟨source, kept⟩ := probe_licence_source keeps later is
    exact read_spec source kept
  · exact read_named_spec keeps later reads

inductive Entry (Ok : LicenceOutcome Terms → Prop) (refused : Bool) (entry : LicenceOutcome Terms) : Prop
  | founded (founded : Ok entry)
  | unread (unread : entry.unread = true) (no_terms : entry.terms = none)
  | refused (refused : refused = true) (not_asked : entry.cache = .not_asked) (no_terms : entry.terms = none)

structure Stands (lossy : Bytes → Text) (edge : Edge W) (held : Text → Option Probe) (since : Int) (page_url : Text)
    (refused : Bool)
    (at_ : Progress u reader W) : Prop where
  keeps : Keeps lossy edge held since at_.pass.record
  later : since ≤ at_.now
  entries : ∀ entry ∈ at_.licences, Entry (Founded lossy edge u reader held since page_url) refused entry
  statements : ∀ entry ∈ at_.licences, ∀ terms, entry.terms = some terms → ∀ s ∈ reader.statements terms, s ∈ at_.statements

variable {refused : Bool} {at_ : Progress u reader W}

theorem Stands.enter (stands : Stands lossy edge held since page_url refused at_) {outcome : LicenceOutcome Terms}
    (entry : Entry (Founded lossy edge u reader held since page_url) refused outcome)
    (keeps : Keeps lossy edge held since pass.record) : Stands lossy edge held since page_url refused (at_.enter outcome pass) where
  keeps := keeps
  later := stands.later
  entries := by
    intro other member
    rcases List.mem_append.mp member with before | last_
    · exact stands.entries other before
    · exact List.mem_singleton.mp last_ ▸ entry
  statements := by
    intro other member terms is s inside
    rcases List.mem_append.mp member with before | last_
    · exact List.mem_append_left _ (stands.statements other before terms is s inside)
    · obtain rfl := List.mem_singleton.mp last_
      exact List.mem_append_right _ (by simpa [is] using inside)

theorem read_one_stands {from_robots : Bool} {reserve : Option Nat} {read : Progress.FirstRead u reader W}
    (stands : Stands lossy edge held since page_url refused at_)
    (reads : at_.read_one lossy attribution edge page_url url from_robots reserve = some read) :
    Stands lossy edge held since page_url refused read.next := by
  cases from_robots with
  | true =>
    obtain ⟨licence, is, rfl⟩ := Option.map_eq_some_iff.mp reads
    obtain ⟨_, founded, kept⟩ := read_robots_licence_spec stands.keeps stands.later is
    exact stands.enter (.founded founded) kept
  | false =>
    obtain ⟨answer, is, rfl⟩ := Option.map_eq_some_iff.mp reads
    exact ⟨(named_probe_source stands.keeps stands.later is).2, stands.later, stands.entries, stands.statements⟩

theorem read_first_stands {host : Text} {page_delay : Option Nat} {first : List (Text × Bool)} {ended : Progress u reader W}
    (stands : Stands lossy edge held since page_url refused at_)
    (reads : at_.read_first lossy attribution edge host page_delay page_url first = some ended) :
    Stands lossy edge held since page_url refused ended := by
  induction first generalizing at_ with
  | nil =>
    obtain rfl := Option.some.inj reads
    exact stands
  | cons entry first ih =>
    obtain ⟨read, is, reads⟩ := Option.bind_eq_some_iff.mp reads
    have next := read_one_stands stands is
    split at reads
    · split at reads
      · obtain rfl := Option.some.inj reads
        exact next
      · obtain rfl := Option.some.inj reads
        exact ⟨next.keeps, next.later, next.entries, next.statements⟩
    · have further : Stands lossy edge held since page_url refused { read.next with now := max at_.now read.sent_at } :=
        ⟨next.keeps, le_max_of_le_left stands.later, next.entries, next.statements⟩
      exact ih further reads

theorem read_rest_stands {first : List (Text × Bool)} {urls : List Text} {ended : Progress u reader W}
    (stands : Stands lossy edge held since page_url refused at_)
    (reads : at_.read_rest lossy attribution edge refused first page_url urls = some ended) :
    Stands lossy edge held since page_url refused ended ∧ at_.licences <+: ended.licences ∧
      ∀ url ∈ urls, ∃ entry ∈ ended.licences, entry.url = url := by
  induction urls generalizing at_ with
  | nil =>
    obtain rfl := Option.some.inj reads
    exact ⟨stands, List.prefix_rfl, by simp⟩
  | cons url urls ih =>
    -- Each way to enter the licence leaves it to the entries that follow.
    have entered {outcome : LicenceOutcome Terms} {pass : Pass u reader W} (named : outcome.url = url)
        (entry : Entry (Founded lossy edge u reader held since page_url) refused outcome)
        (keeps : Keeps lossy edge held since pass.record)
        (reads : (at_.enter outcome pass).read_rest lossy attribution edge refused first page_url urls = some ended) :
        Stands lossy edge held since page_url refused ended ∧ at_.licences <+: ended.licences ∧
          ∀ other ∈ url :: urls, ∃ entry ∈ ended.licences, entry.url = other := by
      obtain ⟨stands, more, rest⟩ := ih (stands.enter entry keeps) reads
      refine ⟨stands, (List.prefix_append _ _).trans more, List.forall_mem_cons.mpr ⟨⟨outcome, ?_, named⟩, rest⟩⟩
      exact more.subset (List.mem_append_right _ (List.mem_singleton_self outcome))
    unfold Progress.read_rest at reads
    split at reads
    · rename_i before
      obtain ⟨stands, more, rest⟩ := ih stands reads
      obtain ⟨entry, member, named⟩ := List.any_eq_true.mp before
      exact ⟨stands, more, List.forall_mem_cons.mpr ⟨⟨entry, more.subset member, by simpa using named⟩, rest⟩⟩
    · split at reads
      · rename_i refuses
        exact entered rfl (.refused refuses rfl rfl) stands.keeps reads
      · split at reads
        · exact entered rfl (.unread rfl rfl) stands.keeps reads
        · obtain ⟨read, is, reads⟩ := Option.bind_eq_some_iff.mp reads
          obtain ⟨named, founded, kept⟩ := read_robots_licence_spec stands.keeps stands.later is
          exact entered named (.founded founded) kept reads

/-! ### The licences that are named -/

theorem mem_foldl_joined {base url : Text} {values kept : List Text}
    (among : url ∈ kept ∨ ∃ value ∈ values, joined u base value = some url) :
    url ∈ values.foldl (fun licences licence =>
      match joined u base licence with
      | none => licences
      | some joined => if joined ∈ licences then licences else licences ++ [joined]) kept := by
  induction values generalizing kept with
  | nil => simpa using among
  | cons value values ih =>
    rw [List.foldl_cons]
    apply ih
    rcases among with before | ⟨some_, member, names⟩
    · refine Or.inl ?_
      split
      · exact before
      · split
        · exact before
        · exact List.mem_append_left _ before
    · rcases List.mem_cons.mp member with rfl | later
      · refine Or.inl ?_
        simp only [names]
        split
        · assumption
        · simp
      · exact Or.inr ⟨some_, later, names⟩

theorem mem_robots_licences {read : RobotsRead} {licence url : Text}
    (named : licence ∈ (read.robots.reading.map (·.licences)).getD [])
    (is : joined u read.robots_url licence = some url) : url ∈ read.robots_licences u :=
  mem_foldl_joined (Or.inr ⟨licence, named, is⟩)

/-- What the members of the `Link` fields name is the licence named or one unread. -/
structure Found (found : LinkLicences) (member : LinkMember) : Prop where
  named : ∀ url, member.reading = .named url → found.named = some url ∨ ∃ link ∈ found.unread, link.written = url
  unread : ∀ why, member.reading = .unread why → ∃ link ∈ found.unread, link.written = member.written

theorem found_later {found : LinkLicences} {member : LinkMember} (before : Found found member) (next : LinkMember) :
    Found (found.read next) member := by
  have more : found.unread <+: (found.read next).unread := by
    unfold LinkLicences.read
    split
    · exact List.prefix_rfl
    · exact List.prefix_rfl
    · split
      · exact List.prefix_rfl
      · exact List.prefix_append _ _
    · exact List.prefix_append _ _
  have first (url : Text) (is : found.named = some url) : (found.read next).named = some url := by
    unfold LinkLicences.read
    split
    · exact is
    · rename_i none_
      rw [is] at none_
      cases none_
    · split <;> exact is
    · exact is
  constructor
  · intro url names
    rcases before.named url names with is | ⟨link, member, is⟩
    · exact Or.inl (first url is)
    · exact Or.inr ⟨link, more.subset member, is⟩
  · intro why names
    obtain ⟨link, member, is⟩ := before.unread why names
    exact ⟨link, more.subset member, is⟩

theorem found_read (found : LinkLicences) (member : LinkMember) : Found (found.read member) member := by
  constructor
  · intro url names
    unfold LinkLicences.read
    cases named : found.named with
    | none => simp [names]
    | some first =>
      by_cases same : first = url
      · simp [names, same, named]
      · simp [names, same]
  · intro why names
    simp [LinkLicences.read, names]

theorem rsl_links_found {members : List LinkMember} {member : LinkMember} (inside : member ∈ members) :
    Found (rsl_links members) member := by
  suffices all : ∀ found, Found found member ∨ member ∈ members → Found (members.foldl LinkLicences.read found) member from
    all _ (Or.inr inside)
  clear inside
  induction members with
  | nil => simp
  | cons next members ih =>
    intro found among
    rw [List.foldl_cons]
    apply ih
    rcases among with before | inside
    · exact Or.inl (found_later before next)
    · rcases List.mem_cons.mp inside with rfl | later
      · exact Or.inl (found_read found member)
      · exact Or.inr later

def Answers (edge : Edge W) (url : Text) (response : Response) : Prop :=
  ∃ world final_url, (edge.probe url .ruled world).1 = .ok (final_url, response)

def Gave (lossy : Bytes → Text) (edge : Edge W) (held : Text → Option Probe) (since : Int) (url body : Text) : Prop :=
  (∃ probe, held url = some probe ∧ probe.url = url ∧ since < probe.expires_at ∧ probe.body = some body) ∨
    ∃ response, Answers edge url response ∧ is_success response.status = true ∧ response.body.length ≤ MAX_PROBE_BODY ∧
      body = lossy response.body

structure Tells (lossy : Bytes → Text) (edge : Edge W) (u : UrlCrate Url) (reader : LicenceReader Licence Terms Statement)
    (held : Text → Option Probe) (since : Int) (page_url : Text) (entry : LicenceOutcome Terms) : Prop where
  stands : entry.unread = true ∧ entry.terms = none ∨
    (entry.missing.isSome = true ∧ ∃ status, entry.status = some status ∧ licence_is_missing status = true) ∨
    ∃ body document, Gave lossy edge held since entry.url body ∧ reader.parse_rsl body = .ok document ∧
      (document.content_for u page_url = .ok none ∧ entry.terms = none ∨
        ∃ content, document.content_for u page_url = .ok (some content) ∧
          entry.terms = some (reader.licence_terms content entry.url))
  read : entry.unread = false →
    (∀ probe, held entry.url = some probe → probe.url = entry.url → probe.expires_at ≤ since) →
    ∃ response, Answers edge entry.url response ∧ (licence_is_missing response.status = true ∨
      is_success response.status = true ∧ response.body.length ≤ MAX_PROBE_BODY ∧
        ∃ document chosen, reader.parse_rsl (lossy response.body) = .ok document ∧ document.content_for u page_url = .ok chosen)

theorem tells_unread {entry : LicenceOutcome Terms} (unread : entry.unread = true) (no_terms : entry.terms = none) :
    Tells lossy edge u reader held since page_url entry :=
  ⟨Or.inl ⟨unread, no_terms⟩, fun read => by rw [unread] at read; cases read⟩

theorem fresh_licence {answer : Answer} {probe : Probe} (fresh : fresh_probe lossy url now .licence answer = some probe) :
    probe.error ≠ none ∧ probe.body = none ∨ ∃ final_url response, answer = .ok (final_url, response) ∧
      probe.status = some response.status ∧ probe.error = none ∧
        (licence_is_missing response.status = true ∧ probe.body = none ∨
          is_success response.status = true ∧ response.body.length ≤ MAX_PROBE_BODY ∧
            probe.body = some (lossy response.body)) := by
  cases answer with
  | error failure =>
    obtain rfl := Option.some.inj fresh
    exact Or.inl ⟨by simp [failed_probe], rfl⟩
  | ok given =>
    obtain ⟨final_url, response⟩ := given
    by_cases missing : licence_is_missing response.status = true
    · simp only [fresh_probe, missing, and_self, if_true] at fresh
      obtain rfl := Option.some.inj fresh
      exact Or.inr ⟨final_url, response, rfl, rfl, rfl, Or.inl ⟨missing, rfl⟩⟩
    · by_cases success : is_success response.status = true
      · simp [fresh_probe, missing, success] at fresh
        obtain ⟨age, _, same⟩ := Option.bind_eq_some_iff.mp fresh
        obtain rfl := Option.some.inj same
        by_cases fits : response.body.length ≤ MAX_PROBE_BODY
        · refine Or.inr ⟨final_url, response, rfl, rfl, ?_, Or.inr ⟨success, fits, ?_⟩⟩ <;>
            simp [answered_probe, read_body, success, fits]
        · exact Or.inl (by simp [answered_probe, read_body, success, fits])
      · simp [fresh_probe, missing, success] at fresh
        obtain rfl := fresh
        exact Or.inl ⟨by simp [answered_probe], rfl⟩

theorem source_gave {probe : Probe} {body : Text} (source : Source lossy edge held since url probe)
    (is : probe.body = some body) :
    Gave lossy edge held since url body := by
  cases source with
  | current slot at_ alive => exact Or.inl ⟨probe, slot, at_, alive, is⟩
  | asked now world fresh =>
    rcases fresh_licence fresh with ⟨_, empty⟩ | ⟨final_url, response, answer, _, _, ⟨_, empty⟩ | ⟨success, fits, given⟩⟩
    · rw [is] at empty
      cases empty
    · rw [is] at empty
      cases empty
    · exact Or.inr ⟨response, ⟨world, final_url, answer⟩, success, fits, Option.some.inj (is.symm.trans given)⟩
  | unsent empty => rw [is] at empty; cases empty

theorem source_asked {probe : Probe} (source : Source lossy edge held since url probe)
    (clean : probe.error = none ∨ probe.body ≠ none)
    (none_ : ∀ probe, held url = some probe → probe.url = url → probe.expires_at ≤ since) :
    ∃ response, Answers edge url response ∧ (licence_is_missing response.status = true ∧ probe.body = none ∨
      is_success response.status = true ∧ response.body.length ≤ MAX_PROBE_BODY ∧ probe.body = some (lossy response.body)) := by
  cases source with
  | current slot at_ alive =>
    have expired := none_ probe slot at_
    omega
  | asked now world fresh =>
    rcases fresh_licence fresh with ⟨failed, empty⟩ | ⟨final_url, response, answer, _, _, shape⟩
    · rcases clean with is | is
      · exact (failed is).elim
      · exact (is empty).elim
    · exact ⟨response, ⟨world, final_url, answer⟩, shape⟩
  | unsent empty failed =>
    rcases clean with is | is
    · exact (failed is).elim
    · exact (is empty).elim

theorem founded_tells {entry : LicenceOutcome Terms} (founded : Founded lossy edge u reader held since page_url entry) :
    Tells lossy edge u reader held since page_url entry := by
  obtain ⟨probe, source, reads⟩ := founded
  cases reads with
  | unread _ unread no_terms => exact tells_unread unread no_terms
  | missing status empty clean is gone named answered no_terms read =>
    refine ⟨Or.inr (Or.inl ⟨named, status, answered, gone⟩), fun _ none_ => ?_⟩
    obtain ⟨response, answers, ⟨missing, _⟩ | ⟨_, _, given⟩⟩ := source_asked source (Or.inl clean) none_
    · exact ⟨response, answers, Or.inl missing⟩
    · rw [empty] at given
      cases given
  | body body is content terms unread =>
    have gave := source_gave source is
    unfold BodyReading.of at terms unread
    cases parsed : reader.parse_rsl body with
    | error error =>
      simp only [parsed] at terms unread
      exact tells_unread unread terms
    | ok document =>
      simp only [parsed] at terms unread
      cases chosen : document.content_for u page_url with
      | error unselected =>
        simp only [chosen] at terms unread
        exact tells_unread unread terms
      | ok chosen_ =>
        simp only [chosen] at terms unread
        refine ⟨Or.inr (Or.inr ⟨body, document, gave, parsed, ?_⟩), fun _ none_ => ?_⟩
        · cases chosen_ with
          | none => exact Or.inl ⟨chosen, terms⟩
          | some content => exact Or.inr ⟨content, chosen, terms⟩
        · obtain ⟨response, answers, ⟨_, empty⟩ | ⟨success, fits, given⟩⟩ := source_asked source (Or.inr (by simp [is])) none_
          · rw [is] at empty
            cases empty
          · obtain rfl := Option.some.inj (is.symm.trans given)
            exact ⟨response, answers, Or.inr ⟨success, fits, document, chosen_, parsed, chosen⟩⟩

theorem read_declared_spec {read : RobotsRead} {stated : List Statement} {readings : Option (LicenceReadings u reader)}
    {world : W}
    {ended : Declared Terms Statement × Pass u reader W}
    (reads : read_declared lossy attribution edge read page_url stated now readings world = some ended) :
    (∀ url ∈ read.robots_licences u, ∃ entry ∈ ended.1.licences, entry.url = url) ∧
      (∀ entry ∈ ended.1.licences,
        Entry (Founded lossy edge u reader read.record.licences now page_url) read.refused_by_the_access_rule entry) ∧
      ∀ entry ∈ ended.1.licences, ∀ terms, entry.terms = some terms →
        ∀ s ∈ reader.statements terms, s ∈ ended.1.statements := by
  unfold read_declared at reads
  simp only at reads
  split at reads
  · obtain rfl := Option.some.inj reads
    refine ⟨fun url member => ⟨not_asked url DOES_NOT_FIT, List.mem_map_of_mem member, rfl⟩, ?_, ?_⟩
    · intro entry member
      obtain ⟨url, _, rfl⟩ := List.mem_map.mp member
      exact .unread rfl rfl
    · intro entry member terms is
      obtain ⟨url, _, rfl⟩ := List.mem_map.mp member
      cases is
  · obtain ⟨firsts, first, reads⟩ := Option.bind_eq_some_iff.mp reads
    obtain ⟨rest, second, reads⟩ := Option.bind_eq_some_iff.mp reads
    obtain rfl := Option.some.inj reads
    have start : Stands lossy edge read.record.licences now page_url read.refused_by_the_access_rule
        (⟨⟨read.record, readings, world⟩, now, [], stated, none, false⟩ : Progress u reader W) :=
      ⟨fun _ _ is => Or.inl is, Int.le_refl _, by simp, by simp⟩
    obtain ⟨stands, _, all⟩ := read_rest_stands (read_first_stands start first) second
    exact ⟨all, stands.entries, stands.statements⟩

theorem content_usage_licences (declared : Declared Terms Statement) (response : PageResponse Statement) :
    (declared.content_usage response).licences = declared.licences := by
  unfold Declared.content_usage
  split <;> rfl

theorem content_usage_statements (declared : Declared Terms Statement) (response : PageResponse Statement) :
    declared.statements <+: (declared.content_usage response).statements := by
  unfold Declared.content_usage
  split
  · exact List.prefix_rfl
  · exact List.prefix_append _ _

structure Adds (Ok : LicenceOutcome Terms → Prop) (reader : LicenceReader Licence Terms Statement) (links : LinkLicences)
    (declared ended : Declared Terms Statement) : Prop where
  kept : declared.licences <+: ended.licences
  named : ∀ url, links.named = some url → ∃ entry ∈ ended.licences, entry.url = url
  entries : ∀ entry ∈ ended.licences, entry ∈ declared.licences ∨ Entry Ok false entry
  statements : ∀ entry ∈ ended.licences, ∀ terms, entry.terms = some terms → ∀ s ∈ reader.statements terms, s ∈ ended.statements

theorem remember_licences (links : LinkLicences) (page_url : Text) (record : HostRecord) :
    (remember links page_url record).licences = record.licences := by
  unfold remember
  split
  · rfl
  · split <;> rfl

theorem named_adds {declared ended : Declared Terms Statement} {links : LinkLicences} {loaded : HostRecord}
    {later : Pass u reader W}
    (keeps : Keeps lossy edge held now pass.record)
    (stated : ∀ entry ∈ declared.licences, ∀ terms, entry.terms = some terms →
      ∀ s ∈ reader.statements terms, s ∈ declared.statements)
    (is : declared.read_named lossy attribution edge links loaded page_url now pass = some (ended, later)) :
    Adds (Founded lossy edge u reader held now page_url) reader links declared ended := by
  unfold Declared.read_named at is
  split at is
  · rename_i licence_url first
    obtain ⟨read, reads, same⟩ := Option.map_eq_some_iff.mp is
    obtain ⟨rfl, _⟩ := Prod.mk.inj same
    obtain ⟨at_, founded, _⟩ := read_named_spec keeps (Int.le_refl _) reads
    obtain ⟨named, _⟩ := Option.filter_eq_some_iff.mp first
    refine ⟨List.prefix_append _ _, ?_, ?_, ?_⟩
    · intro url names
      obtain rfl := Option.some.inj (named.symm.trans names)
      exact ⟨read.outcome, List.mem_append_right _ (List.mem_singleton_self _), at_⟩
    · intro entry member
      rcases List.mem_append.mp member with early | late
      · exact Or.inl early
      · exact Or.inr (List.mem_singleton.mp late ▸ .founded founded)
    · intro entry member terms has s inside
      rcases List.mem_append.mp member with early | late
      · exact List.mem_append_left _ (stated entry early terms has s inside)
      · obtain rfl := List.mem_singleton.mp late
        exact List.mem_append_right _ (by simpa [has] using inside)
  · rename_i none_
    have same : ended = declared := by
      split at is <;> exact (congrArg Prod.fst (Option.some.inj is)).symm
    subst same
    refine ⟨List.prefix_rfl, fun url named => ?_, fun entry member => Or.inl member, stated⟩
    rw [named] at none_
    have listed : (!ended.licences.any (·.url = url)) = false := by
      cases is_ : !ended.licences.any (·.url = url) with
      | false => rfl
      | true => simp [Option.filter, is_] at none_
    simpa using listed

theorem after_fetch_spec {declared : Declared Terms Statement} {response : PageResponse Statement}
    {readings : Option (LicenceReadings u reader)} {world : W} {ended : Declared Terms Statement × Pass u reader W}
    (reads : after_fetch lossy attribution edge declared page_url response now readings world = some ended)
    (stated : ∀ entry ∈ declared.licences, ∀ terms, entry.terms = some terms →
      ∀ s ∈ reader.statements terms, s ∈ declared.statements) :
    Adds (Founded lossy edge u reader (edge.load (file_of u page_url) world).licences now page_url) reader (rsl_links response.links)
        declared ended.1 ∧
      ∀ link ∈ (rsl_links response.links).unread, ∃ entry ∈ ended.1.licences, entry.url = link.written ∧
        entry.unread = true := by
  obtain ⟨⟨between, pass⟩, is, rfl⟩ := Option.map_eq_some_iff.mp reads
  have before := content_usage_licences declared response
  have states := content_usage_statements declared response
  have stated_before : ∀ entry ∈ (declared.content_usage response).licences, ∀ terms, entry.terms = some terms →
      ∀ s ∈ reader.statements terms, s ∈ (declared.content_usage response).statements := by
    intro entry member terms has s inside
    exact states.subset (stated entry (before ▸ member) terms has s inside)
  have keeps : Keeps lossy edge (edge.load (file_of u page_url) world).licences now
      (remember (rsl_links response.links) page_url (edge.load (file_of u page_url) world)) := by
    intro url probe slot
    exact Or.inl (by rw [← slot, remember_licences])
  have added := named_adds keeps stated_before is
  refine ⟨⟨?_, ?_, ?_, ?_⟩, fun link member => ?_⟩
  · exact (before ▸ added.kept).trans (List.prefix_append _ _)
  · intro url named
    obtain ⟨entry, member, at_⟩ := added.named url named
    exact ⟨entry, List.mem_append_left _ member, at_⟩
  · intro entry member
    rcases List.mem_append.mp member with early | late
    · exact (added.entries entry early).imp_left fun first => before ▸ first
    · obtain ⟨link, _, rfl⟩ := List.mem_map.mp late
      exact Or.inr (.unread rfl rfl)
  · intro entry member terms has s inside
    rcases List.mem_append.mp member with early | late
    · exact added.statements entry early terms has s inside
    · obtain ⟨link, _, rfl⟩ := List.mem_map.mp late
      cases has
  · exact ⟨link.outcome, List.mem_append_right _ (List.mem_map_of_mem member), rfl, rfl⟩

/-- Every licence the source names for a page has an entry: each directive whose value names a URL, and each member of the `Link`
fields that names one or cannot be read. Each entry tells what it rests on, and where the access rule did not refuse the
crossing one that was not read is unread; and the statements hold those of the terms of every entry. -/
theorem licences_entered {read : RobotsRead} {stated : List Statement} {response : PageResponse Statement} {since now : Int}
    {readings readings_after : Option (LicenceReadings u reader)} {world world_after : W}
    {declared ended : Declared Terms Statement × Pass u reader W}
    (declares : read_declared lossy attribution edge read page_url stated since readings world = some declared)
    (fetched : after_fetch lossy attribution edge declared.1 page_url response now readings_after world_after = some ended) :
    (∀ licence ∈ (read.robots.reading.map (·.licences)).getD [], ∀ url, joined u read.robots_url licence = some url →
      ∃ entry ∈ ended.1.licences, entry.url = url) ∧
    (∀ member ∈ response.links,
      (∀ url, member.reading = .named url → ∃ entry ∈ ended.1.licences, entry.url = url) ∧
      ∀ why, member.reading = .unread why → ∃ entry ∈ ended.1.licences, entry.url = member.written ∧ entry.unread = true) ∧
    (∀ entry ∈ ended.1.licences,
      Tells lossy edge u reader read.record.licences since page_url entry ∨
      Tells lossy edge u reader (edge.load (file_of u page_url) world_after).licences now page_url entry ∨
      read.refused_by_the_access_rule = true ∧ entry.cache = .not_asked ∧ entry.terms = none) ∧
    ∀ entry ∈ ended.1.licences, ∀ terms, entry.terms = some terms → ∀ s ∈ reader.statements terms, s ∈ ended.1.statements := by
  obtain ⟨directives, entries, statements⟩ := read_declared_spec declares
  obtain ⟨adds, unread⟩ := after_fetch_spec fetched statements
  refine ⟨?_, ?_, ?_, adds.statements⟩
  · intro licence named url is
    obtain ⟨entry, member, at_⟩ := directives url (mem_robots_licences named is)
    exact ⟨entry, adds.kept.subset member, at_⟩
  · intro member inside
    have found := rsl_links_found inside
    refine ⟨fun url names => ?_, fun why names => ?_⟩
    · rcases found.named url names with first | ⟨link, listed, written⟩
      · exact adds.named url first
      · obtain ⟨entry, kept, at_, _⟩ := unread link listed
        exact ⟨entry, kept, at_.trans written⟩
    · obtain ⟨link, listed, written⟩ := found.unread why names
      obtain ⟨entry, kept, at_, is⟩ := unread link listed
      exact ⟨entry, kept, at_.trans written, is⟩
  · intro entry member
    rcases adds.entries entry member with early | late
    · cases entries entry early with
      | founded founded => exact Or.inl (founded_tells founded)
      | unread is no_terms => exact Or.inl (tells_unread is no_terms)
      | refused refused not_asked no_terms => exact Or.inr (Or.inr ⟨refused, not_asked, no_terms⟩)
    · cases late with
      | founded founded => exact Or.inr (Or.inl (founded_tells founded))
      | unread is no_terms => exact Or.inr (Or.inl (tells_unread is no_terms))
      | refused refused => cases refused

end

/-! ### A page of one host -/

def HOST : Text := "https://a.example".toList

def pathHost : UrlCrate HostUrl :=
  { oneHost with
    parse := fun text => if HOST.isPrefixOf text then some ⟨[], text.drop HOST.length⟩ else none
    join := fun base licence => if licence.head? = some '/' then some { base with path := licence } else none }

/-- A `robots.txt`, and a licence document at another path. -/
def publisher (robots : Text) : Edge Unit where
  load := fun _ _ => .default
  save := fun _ _ _ => ()
  probe := fun url _ _ =>
    (.ok (url, ⟨200, (if url = HOST ++ "/robots.txt".toList then robots else "rsl".toList).map fun c => c.toUInt8, none⟩), ())
  pacing := none

def wholeHost : LicenceReader Unit Unit Unit where
  parse_rsl := fun _ => .ok ⟨[⟨"/".toList, none, []⟩]⟩
  licence_terms := fun _ _ => ()
  statements := fun _ => [()]
  reason := fun _ => []

def PAGE : Text := HOST ++ "/x".toList

/-- What `robots.txt` says, and the page's declarations before it is fetched. -/
def declared_at (robots : Text) : Option (RobotsRead × Declared Unit Unit × Pass pathHost wholeHost Unit) :=
  (read_robots pathHost fromBytes (publisher robots) PAGE 0 .strict ()).bind fun read =>
    (read_declared fromBytes (fun _ => []) (publisher robots) read.1 PAGE [] 0 none read.2).map (read.1, ·)

/-- The licence of a page the access rule refuses is entered with no terms, not missing, not read and not unread. -/
theorem refused_not_unread :
    (declared_at "User-agent: *\nDisallow: /\nLicense: /rsl.xml\n".toList).map (fun declared =>
        (declared.1.refused_by_the_access_rule, declared.2.1.licences.map fun entry =>
          (entry.url, entry.cache, [entry.terms.isSome, entry.missing.isSome, entry.content.isSome, entry.unread]))) =
      some (true, [(HOST ++ "/rsl.xml".toList, .not_asked, [false, false, false, false])]) := by
  decide

/-- A `robots.txt` that names a licence, for a page whose response names another. -/
def LICENSED : Text := "User-agent: *\nAllow: /\nLicense: /rsl.xml\n".toList

def naming : PageResponse Unit := ⟨none, [⟨.named (HOST ++ "/page.xml".toList), [], false⟩]⟩

def fetched_at (declared : Declared Unit Unit) : Option (Declared Unit Unit × Pass pathHost wholeHost Unit) :=
  after_fetch fromBytes (fun _ => []) (publisher LICENSED) declared PAGE naming 0 none ()

theorem licences_entered_allowed :
    ∃ read declared ended, declared_at LICENSED = some (read, declared) ∧ fetched_at declared.1 = some ended ∧
      ∃ entry ∈ ended.1.licences, entry.url = HOST ++ "/page.xml".toList := by
  have fetches : ((declared_at LICENSED).bind fun declared => fetched_at declared.2.1).isSome = true := by decide
  obtain ⟨ended, is⟩ := Option.isSome_iff_exists.mp fetches
  obtain ⟨⟨read, declared⟩, declares, fetched⟩ := Option.bind_eq_some_iff.mp is
  obtain ⟨robots, _, rest⟩ := Option.bind_eq_some_iff.mp declares
  obtain ⟨same, read_, shape⟩ := Option.map_eq_some_iff.mp rest
  obtain ⟨rfl, rfl⟩ := Prod.mk.inj shape
  obtain ⟨_, members, _⟩ := licences_entered read_ fetched
  exact ⟨_, _, ended, declares, fetched, (members _ (List.mem_singleton_self _)).1 _ rfl⟩

end CommonMeasure.Declarations
