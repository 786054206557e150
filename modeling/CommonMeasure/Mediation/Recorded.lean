import CommonMeasure.Mediation.Fetch
import CommonMeasure.Purchase.Exits

/-!
# Every fetch is recorded as it is answered

`Tells` is what a passage and its one crossing say of each other.
-/

namespace CommonMeasure.Mediation

open Purchase (GateDecision)

variable {D R I S : Type} {T : Admission.Texts} {server : Server} {o : Occasion D R I S} {window : FetchWindow}

def Event.crossing : Event D R I → Option (FetchFacts D R I)
  | .recorded crossing => some crossing
  | _ => none

def Event.plain : Event D R I → Bool
  | .recorded _ => false
  | .saved _ => false
  | _ => true

structure FetchFacts.Delivers (crossing : FetchFacts D R I) : Prop where
  unrefused : crossing.refusal = none
  reached : crossing.failure = none
  success : ∃ status, crossing.http_status = some status ∧ 200 ≤ status ∧ status < 300
  carried : crossing.grounded = true ∧ crossing.delivered.isSome = true ∨ crossing.delivered_file.isSome = true

structure Tells (o : Occasion D R I S) (window : FetchWindow) (passage : Passage D R I S) (crossing : FetchFacts D R I) :
    Prop where
  once : passage.events.filterMap Event.crossing = [crossing]
  result : (∃ fetched, passage.exit = .ok fetched) ↔ crossing.Delivers ∧ ∃ handle, o.acquisition_handle = .ok handle
  error : ∀ told, passage.exit = .error told →
    crossing.Delivers ∧ o.acquisition_handle = .error () ∨ ¬crossing.Delivers ∧ crossing.told = some told
  text : ∀ fetched part shown, passage.exit = .ok fetched → fetched.carried = .text part shown →
    ∃ text, part = window.slice text ∧ crossing.delivered = some (part.delivered o.sha256_digest) ∧
      crossing.content_hash = some (o.sha256_digest (as_bytes text))
  file : ∀ fetched bytes embedded, passage.exit = .ok fetched → fetched.carried = .file bytes embedded →
    crossing.content_hash = some (o.sha256_digest bytes)
  saved : ∀ bytes, .saved bytes ∈ passage.events → crossing.content_hash = some (o.sha256_digest bytes) ∧
    crossing.refusal = none
  refused : crossing.refusal.isSome = true → ∀ fetched, passage.exit ≠ .ok fetched

def Recorded (o : Occasion D R I S) (window : FetchWindow) (passage : Passage D R I S) : Prop :=
  ∃ crossing, Tells o window passage crossing

theorem crossing_plain {event : Event D R I} (plain : event.plain = true) : event.crossing = none := by
  cases event <;> first | rfl | cases plain

theorem crossings_plain {events : List (Event D R I)} (plain : ∀ event ∈ events, event.plain = true) :
    events.filterMap Event.crossing = [] := by
  rw [List.filterMap_eq_nil_iff]
  exact fun event member => crossing_plain (plain event member)

theorem saved_plain {events : List (Event D R I)} (plain : ∀ event ∈ events, event.plain = true) {bytes : Bytes} :
    .saved bytes ∉ events := fun member => Bool.noConfusion (plain _ member)

theorem Recorded.after {passage : Passage D R I S} {events : List (Event D R I)} (tells : Recorded o window passage)
    (plain : ∀ event ∈ events, event.plain = true) : Recorded o window (passage.after events) := by
  obtain ⟨crossing, tells⟩ := tells
  refine ⟨crossing, ?_, tells.result, tells.error, tells.text, tells.file, ?_, tells.refused⟩
  · show (events ++ passage.events).filterMap Event.crossing = [crossing]
    rw [List.filterMap_append, crossings_plain plain, List.nil_append, tells.once]
  · intro bytes member
    rcases List.mem_append.mp member with before | here
    · exact (saved_plain plain before).elim
    · exact tells.saved bytes here

theorem recorded_told {facts : FetchFacts D R I} {told : AgentText} (undelivered : ¬facts.Delivers) :
    Recorded o window (record_told facts told) := by
  have still : ¬FetchFacts.Delivers { facts with told := some told } := fun delivers =>
    undelivered ⟨delivers.unrefused, delivers.reached, delivers.success, delivers.carried⟩
  refine ⟨{ facts with told := some told }, rfl, ?_, ?_, ?_, ?_, ?_, ?_⟩
  · exact ⟨fun ⟨_, is⟩ => (nomatch is), fun ⟨delivers, _⟩ => (still delivers).elim⟩
  · intro other is
    obtain rfl := Except.error.inj is
    exact Or.inr ⟨still, rfl⟩
  · exact fun _ _ _ is => (nomatch is)
  · exact fun _ _ _ is => (nomatch is)
  · intro bytes member
    cases List.mem_singleton.mp member
  · exact fun _ _ is => (nomatch is)

theorem recorded_refused {facts : FetchFacts D R I} {told : AgentText} (refused : facts.refusal.isSome = true) :
    Recorded o window (record_told facts told) := by
  refine recorded_told fun delivers => ?_
  rw [delivers.unrefused] at refused
  cases refused

theorem recorded_delivered {facts : FetchFacts D R I} {fetched : Fetched S} {saved : List (Event D R I)}
    (delivers : facts.Delivers)
    (text : ∀ part shown, fetched.carried = .text part shown →
      ∃ text, part = window.slice text ∧ facts.delivered = some (part.delivered o.sha256_digest) ∧
        facts.content_hash = some (o.sha256_digest (as_bytes text)))
    (file : ∀ bytes embedded, fetched.carried = .file bytes embedded → facts.content_hash = some (o.sha256_digest bytes))
    (only : ∀ event ∈ saved, ∃ bytes, event = .saved bytes ∧ facts.content_hash = some (o.sha256_digest bytes)) :
    Recorded o window ((recorded o facts fetched).after saved) := by
  have quiet : saved.filterMap Event.crossing = [] := by
    rw [List.filterMap_eq_nil_iff]
    intro event member
    obtain ⟨bytes, rfl, _⟩ := only event member
    rfl
  have exit (other : Fetched S) (is : ((recorded o facts fetched).after saved).exit = .ok other) : other = fetched := by
    simp only [recorded, Passage.after] at is
    split at is
    · cases is
    · exact (Except.ok.inj is).symm
  refine ⟨facts, ?_, ?_, ?_, ?_, ?_, ?_, ?_⟩
  · show (saved ++ [Event.recorded facts]).filterMap Event.crossing = [facts]
    rw [List.filterMap_append, quiet]
    rfl
  · cases handle : o.acquisition_handle with
    | error => simp [recorded, Passage.after, handle]
    | ok handle_ => simp [recorded, Passage.after, handle, delivers]
  · intro told is
    cases handle : o.acquisition_handle with
    | error => exact Or.inl ⟨delivers, rfl⟩
    | ok handle_ => simp [recorded, Passage.after, handle] at is
  · intro other part shown is carried
    exact text part shown (exit other is ▸ carried)
  · intro other bytes embedded is carried
    exact file bytes embedded (exit other is ▸ carried)
  · intro bytes member
    rcases List.mem_append.mp member with before | here
    · obtain ⟨same, is, hash⟩ := only _ before
      cases is
      exact ⟨hash, delivers.unrefused⟩
    · cases List.mem_singleton.mp here
  · intro refused
    rw [delivers.unrefused] at refused
    cases refused

theorem recorded_unsaved {facts : FetchFacts D R I} {fetched : Fetched S} (delivers : facts.Delivers)
    (text : ∀ part shown, fetched.carried = .text part shown →
      ∃ text, part = window.slice text ∧ facts.delivered = some (part.delivered o.sha256_digest) ∧
        facts.content_hash = some (o.sha256_digest (as_bytes text)))
    (file : ∀ bytes embedded, fetched.carried = .file bytes embedded → facts.content_hash = some (o.sha256_digest bytes)) :
    Recorded o window (recorded o facts fetched) :=
  @recorded_delivered _ _ _ _ o window facts fetched [] delivers text file fun _ member => (nomatch member)

/-! ### The ways out -/

theorem ledger_events_plain (events : List Purchase.Event) :
    ∀ event ∈ (ledger_events events : List (Event D R I)), event.plain = true := by
  intro event member
  rcases mem_ledger_events member with ⟨written, rfl⟩ | ⟨reservation, observed, rfl⟩
  · rfl
  · rfl

section

variable {a : Answered D} {after : D × List Spoken}

theorem deliver_text_recorded (success : 200 ≤ a.response.status ∧ a.response.status < 300) (text : List Char)
    (release : Option (R × Spoken)) : Recorded o a.window (deliver_text server o a after text release) := by
  unfold deliver_text
  simp only
  cases first_refused after.2 with
  | some refused => exact recorded_refused (by rfl)
  | none =>
    cases (a.window.slice text).past_end with
    | some reason => exact recorded_refused (by rfl)
    | none =>
      simp only
      generalize (if release.isSome = true then o.release_fields else ⟨.allowed, ""⟩ : Spoken) = fields_ruling
      cases first_refused [(release.map (·.2)).getD ⟨.allowed, ""⟩, o.injection, fields_ruling] with
      | some refused => exact recorded_refused (by rfl)
      | none =>
        refine recorded_unsaved ⟨rfl, rfl, ⟨_, rfl, success⟩, Or.inl ⟨rfl, rfl⟩⟩ ?_ (fun _ _ is => nomatch is)
        rintro part shown ⟨⟩
        exact ⟨text, rfl, rfl, rfl⟩

theorem deliver_file_recorded (success : 200 ≤ a.response.status ∧ a.response.status < 300) (kind : BodyKind) :
    Recorded o a.window (deliver_file server o a kind after) := by
  unfold deliver_file
  simp only
  split
  · exact (recorded_refused (by rfl)).after fun event member => (nomatch member)
  split
  · split
    · refine recorded_delivered ⟨rfl, rfl, ⟨_, rfl, success⟩, Or.inr rfl⟩ (fun _ _ is => nomatch is) ?_ ?_
      · rintro bytes embedded ⟨⟩
        rfl
      · intro event member
        exact ⟨_, List.mem_singleton.mp member, rfl⟩
    · exact (recorded_refused (by rfl)).after fun event member => (nomatch member)
  · refine recorded_delivered ⟨rfl, rfl, ⟨_, rfl, success⟩, Or.inr rfl⟩ (fun _ _ is => nomatch is) ?_ ?_
    · rintro bytes embedded ⟨⟩
      rfl
    · exact fun event member => (nomatch member)

theorem deliver_recorded (same : a.window = window) (success : 200 ≤ a.response.status ∧ a.response.status < 300) :
    Recorded o window (deliver server o a) := by
  subst same
  unfold deliver
  simp only
  split
  · split
    · exact deliver_text_recorded success _ _
    · exact recorded_refused (by rfl)
  · split
    · exact deliver_text_recorded success _ _
    · exact deliver_file_recorded success _

theorem answered_outside_recorded (outside : ¬(200 ≤ a.response.status ∧ a.response.status < 300))
    (gap : Option (String × AgentText)) :
    Recorded o window (answered_outside server o a gap) := by
  unfold answered_outside
  simp only
  split
  · exact recorded_refused (by rfl)
  · refine recorded_told fun delivers => outside ?_
    obtain ⟨status, is, success⟩ := delivers.success
    exact Option.some.inj is ▸ success

end

variable {url : String} {authorised : Option GateDecision} {breach : Option String}

theorem release_plain : ∀ event ∈ (release_authorisation o authorised).2, event.plain = true := by
  unfold release_authorisation
  split
  · exact fun event member => (nomatch member)
  · exact ledger_events_plain _

theorem settle_plain : ∀ event ∈ (settle_authorisation T server o authorised).2, event.plain = true := by
  unfold settle_authorisation
  split
  · exact ledger_events_plain _
  · exact fun event member => (nomatch member)

theorem request_recorded : Recorded o window (request T server o url window authorised breach) := by
  unfold request
  simp only
  have asked : ∀ event ∈ ((follow o url).urls.map .requested : List (Event D R I)), event.plain = true := by
    intro event member
    obtain ⟨_, _, rfl⟩ := List.mem_map.mp member
    rfl
  apply Recorded.after _ asked
  have failed {facts : FetchFacts D R I} {told : AgentText} (failed : facts.failure.isSome = true) :
      Recorded o window ((record_told facts told).after (release_authorisation o authorised).2) := by
    refine (recorded_told fun delivers => ?_).after release_plain
    rw [delivers.reached] at failed
    cases failed
  split
  · exact (recorded_refused (by rfl)).after release_plain
  · exact (recorded_refused (by rfl)).after release_plain
  · exact failed (by rfl)
  · exact failed (by rfl)
  · exact failed (by rfl)
  · refine Recorded.after ?_ settle_plain
    split
    · rename_i success
      exact deliver_recorded rfl (by exact success)
    · rename_i outside
      exact answered_outside_recorded outside _

theorem rule_recorded : Recorded o window (rule_and_take_turn T server o url window authorised breach) := by
  unfold rule_and_take_turn
  simp only
  split
  · exact (recorded_refused (by rfl)).after release_plain
  split
  · exact (recorded_refused (by rfl)).after release_plain
  · exact request_recorded

theorem authorise_recorded (home : server.home = true) : Recorded o window (authorise T server o url window) := by
  unfold authorise
  split
  · rw [if_pos home]
    apply Recorded.after
    · split
      · exact rule_recorded
      · split
        · exact recorded_refused (by rfl)
        · exact rule_recorded
    · intro event member
      obtain ⟨_, _, rfl⟩ := List.mem_map.mp member
      rfl
  · exact rule_recorded

/-- A call past its arguments, the private-address check and the instance check has exactly one crossing, and what it returns is
what the crossing says. -/
theorem fetch_recorded (started : o.session_start = .ok ()) (named : o.url = some url)
    (arguments : FetchWindow.from_arguments o.offset o.max_chars = .ok window) (host_call : o.host_call = .ok ())
    (mediates : o.mediates_address = .ok ()) (permits : o.instance_permits = .ok ()) (home : server.home = true) :
    ∃ crossing, Tells o window (fetch_unquoted T server o) crossing := by
  show Recorded o window _
  unfold fetch_unquoted
  rw [started, named, arguments, host_call, mediates]
  simp only
  unfold cross
  split
  · exact recorded_refused (by rfl)
  split
  · exact recorded_refused (by rfl)
  · rw [permits]
    simp only
    split
    · exact authorise_recorded home
    · exact recorded_refused (by rfl)

def unmetered : Server where
  mode := .strict
  allowance := none
  declared _ is := nomatch is
  names_the_edge := true
  record_named := "the session's log"
  policy_named := "policy.json"
  home := true

def seven : Occasion Unit Unit Unit Unit where
  session_start := .ok ()
  url := some "https://example.com/"
  offset := .number 1
  max_chars := .number 5
  host_call := .ok ()
  mediates_address := .ok ()
  named_by := "agent"
  keeps_off_hub := .ok ()
  admission := ⟨.allowed, ""⟩
  instance_permits := .ok ()
  sends := true
  pace := ⟨"", ""⟩
  known := ((), [])
  declared := ()
  quoted_price := none
  ledger := ⟨.error "", .error "", .error "", .error "", .error ""⟩
  gate_reason := ""
  before := ((), [])
  turn := ((), none)
  content_telemetry_id := none
  anchored := false
  followed := .ok ("https://example.com/", ⟨200, [], none, false, false, .text, false, fun _ => none⟩)
  pass_for := .ok ()
  retried := .error (.failed "" "" "")
  hops := []
  redirected _ declarations := declarations
  backed_off declarations := declarations
  presented _ := ()
  requested_at := none
  refused_by _ _ _ := none
  admit_host _ := ⟨.allowed, ""⟩
  after _ := ((), [])
  licence_of _ := .unknown
  pii_not_read := ⟨.allowed, ""⟩
  injection_not_read := ⟨.allowed, ""⟩
  save := .ok ()
  resolve_manifest := none
  acquisition_handle := .ok none
  extracted := ['c', 'o', 'n', 't', 'e', 'n', 't']
  release := .error ("", "")
  release_shown _ _ := ((), [])
  pii := ⟨.allowed, ""⟩
  injection := ⟨.allowed, ""⟩
  release_fields := ⟨.allowed, ""⟩
  estimate_tokens text := text.length
  sha256_digest bytes := toString bytes.length

theorem fetch_recorded_seven : ∃ crossing,
    Tells seven ⟨1, 5, true⟩ (fetch_unquoted Purchase.texts unmetered seven) crossing :=
  fetch_recorded rfl rfl (by rfl) rfl rfl rfl rfl

end CommonMeasure.Mediation
