import CommonMeasure.Declarations.Conforming
import CommonMeasure.Declarations.Removed

namespace CommonMeasure.Declarations.Links

section

variable {Url : Type} (u : UrlCrate Url) (refusal : Text → Text → String) (page_url : Text)

def Entered (found : LinkLicences) (member : LinkMember) : Prop :=
  match read_member u refusal page_url member with
  | .NoLicence => True
  | .Named url => found.named = some url ∨ ∃ link ∈ found.unread, link.written = url
  | .Unread why => ∃ link ∈ found.unread, link.why = why ∧ link.written = (render_value member.written).1

def Grows (found later : LinkLicences) : Prop :=
  (∀ url, found.named = some url → later.named = some url) ∧ ∀ link ∈ found.unread, link ∈ later.unread

theorem step_grows (found : LinkLicences) (member : LinkMember) :
    Grows found (found.step u refusal page_url member) ∧
      Entered u refusal page_url (found.step u refusal page_url member) member := by
  rw [Entered, LinkLicences.step]
  cases reading : read_member u refusal page_url member with
  | NoLicence => exact ⟨⟨fun _ is => is, fun _ listed => listed⟩, trivial⟩
  | Unread why =>
    exact ⟨⟨fun _ is => is, fun _ listed => List.mem_append_left _ listed⟩, _, List.mem_append_right _ List.mem_cons_self,
      rfl, rfl⟩
  | Named url =>
    dsimp only
    cases named : found.named with
    | none => exact ⟨⟨fun _ is => (by rw [named] at is; cases is), fun _ listed => listed⟩, Or.inl rfl⟩
    | some first =>
      dsimp only
      split
      · rename_i same
        exact ⟨⟨fun _ is => is, fun _ listed => listed⟩, Or.inl (same ▸ named)⟩
      · exact ⟨⟨fun _ is => named.symm.trans is, fun _ listed => List.mem_append_left _ listed⟩,
          Or.inr ⟨_, List.mem_append_right _ List.mem_cons_self, rfl⟩⟩

theorem Entered.later {found later : LinkLicences} {member : LinkMember} (entered : Entered u refusal page_url found member)
    (grows : Grows found later) : Entered u refusal page_url later member := by
  rw [Entered] at entered ⊢
  cases reading : read_member u refusal page_url member with
  | NoLicence => trivial
  | Unread why =>
    rw [reading] at entered
    obtain ⟨link, listed, same⟩ := entered
    exact ⟨link, grows.2 link listed, same⟩
  | Named url =>
    rw [reading] at entered
    rcases entered with named | ⟨link, listed, same⟩
    · exact Or.inl (grows.1 url named)
    · exact Or.inr ⟨link, grows.2 link listed, same⟩

theorem fold_entered (members : List LinkMember) (found : LinkLicences) :
    Grows found (members.foldl (LinkLicences.step u refusal page_url) found) ∧
      ∀ member ∈ members, Entered u refusal page_url (members.foldl (LinkLicences.step u refusal page_url) found) member := by
  induction members generalizing found with
  | nil => exact ⟨⟨fun _ is => is, fun _ listed => listed⟩, by simp⟩
  | cons first members ih =>
    obtain ⟨grows, entered⟩ := step_grows u refusal page_url found first
    obtain ⟨more, others⟩ := ih (found.step u refusal page_url first)
    rw [List.foldl_cons]
    refine ⟨⟨fun url is => more.1 url (grows.1 url is), fun link listed => more.2 link (grows.2 link listed)⟩, ?_⟩
    intro member listed
    rcases List.mem_cons.mp listed with rfl | later
    · exact entered.later u refusal page_url more
    · exact others member later

theorem rsl_links_entered (fields : List Bytes) {field : Bytes} {member : LinkMember} (sent : field ∈ fields)
    (listed : member ∈ link_members field) : Entered u refusal page_url (rsl_links u refusal page_url fields) member :=
  (fold_entered u refusal page_url _ _).2 member (List.mem_flatMap.mpr ⟨field, sent, listed⟩)

end

theorem mem_membersFrom {turns : Nat} {rest : Bytes} {member : LinkMember} (listed : member ∈ membersFrom turns rest) :
    ∃ text, member = (member_at text).1 := by
  induction turns generalizing rest with
  | zero => cases listed
  | succ turns ih =>
    rw [membersFrom] at listed
    split at listed
    · cases listed
    · rcases List.mem_cons.mp listed with rfl | later
      · exact ⟨_, rfl⟩
      · exact ih later

theorem malformed_stops {field : Bytes} {member : LinkMember} (listed : member ∈ link_members field)
    (malformed : member.malformed.isSome = true) (front back : Bytes) (parts : member.raw = front ++ COMMA :: back) :
    front.foldl Scan.step .start ≠ .start := by
  obtain ⟨text, rfl⟩ := mem_membersFrom listed
  cases parsed : (parse_member text).2 with
  | ok after =>
    rw [member_at_ok parsed] at malformed
    cases malformed
  | error why =>
    obtain ⟨before, whole, inside, _⟩ := next_member_stops .start text
    have taken : text.take (text.length - (next_member .start text).length) = before := by
      have length := congrArg List.length whole
      rw [List.length_append] at length
      have count : text.length - (next_member .start text).length = before.length := by omega
      rw [count]
      conv_lhs => rw [whole]
      exact List.take_left
    rw [member_at_bytes, member_at_error parsed] at parts
    dsimp only at parts
    rw [taken] at parts
    obtain ⟨white, trimmed⟩ : ∃ white, before = before.rdropWhile is_ows ++ white :=
      ⟨_, (List.rdropWhile_append_rtakeWhile).symm⟩
    apply inside front (back ++ white)
    rw [trimmed, parts]
    simp

/-- The members of every field; what is named by a link value that conforms is entered, and so is what could not be parsed. -/
theorem links_entered {Url : Type} (u : UrlCrate Url) (refusal : Text → Text → String) (page_url : Text) (fields : List Bytes) :
    (∀ field, Split field (link_members field)) ∧
    (∀ texts, (∀ text ∈ texts, Segment text) → joined texts ∈ fields →
      ∀ before (link : LinkValue) after, before.all is_ows = true →
      after.all is_ows = true → link.Licensed → before ++ (link.write ++ after) ∈ texts →
      ∃ member ∈ link_members (joined texts), member.target = some link.target ∧
        (read_member u refusal page_url member).names = true ∧
        Entered u refusal page_url (rsl_links u refusal page_url fields) member) ∧
    ∀ field ∈ fields, ∀ member ∈ link_members field, member.malformed.isSome = true →
      (∀ front back, member.raw = front ++ COMMA :: back → front.foldl Scan.step .start ≠ .start) ∧
      (member.mentions_license = true → ∃ link ∈ (rsl_links u refusal page_url fields).unread,
        link.written = (render_value member.raw).1) := by
  refine ⟨link_members_split, ?_, ?_⟩
  · intro texts segments sent before link after lead trail licensed listed
    have neat := write_neat licensed.formed trail
    have member := membersFrom_joined segments _ (Nat.le_refl _) lead neat listed
    obtain ⟨target, names⟩ := read_member_licensed u refusal page_url licensed trail
    exact ⟨_, member, target, names, rsl_links_entered u refusal page_url fields sent member⟩
  · intro field sent member listed malformed
    refine ⟨malformed_stops listed malformed, fun mentions => ?_⟩
    have entered := rsl_links_entered u refusal page_url fields sent listed
    obtain ⟨why, is⟩ := Option.isSome_iff_exists.mp malformed
    rw [Entered, read_member, is] at entered
    dsimp only at entered
    rw [if_pos mentions] at entered
    obtain ⟨link, unread, _, written⟩ := entered
    rw [LinkMember.written, is] at written
    exact ⟨link, unread, written⟩

def plainly (name text : String) : LinkParam := ⟨[], [32], some (utf8 name, .quoted [] [] ((utf8 text).map (false, ·)))⟩

theorem plainly_formed {name text : String} (token : isToken (utf8 name))
    (plain : ∀ b ∈ utf8 text, b ≠ QUOTE ∧ b ≠ BACKSLASH) : (plainly name text).Formed := by
  refine ⟨rfl, rfl, fun called value is => ?_⟩
  obtain ⟨rfl, rfl⟩ := Prod.mk.inj (Option.some.inj is)
  refine ⟨token, rfl, rfl, fun item listed _ => ?_⟩
  obtain ⟨b, inside, rfl⟩ := List.mem_map.mp listed
  exact plain b inside

def licenceLink : LinkValue := ⟨utf8 "/l.xml", [plainly "rel" "license", plainly "Type" "application/rsl+xml"]⟩

set_option maxRecDepth 100000 in
theorem licenceLink_licensed : licenceLink.Licensed := by
  refine ⟨⟨by decide, fun param listed => ?_⟩, ⟨utf8 "license", "license", rfl, fromUtf8_utf8 _, by decide⟩,
    ⟨utf8 "application/rsl+xml", "application/rsl+xml", rfl, fromUtf8_utf8 _, by decide⟩⟩
  rcases List.mem_cons.mp listed with rfl | listed
  · exact plainly_formed ⟨by decide, by decide⟩ (by decide)
  · obtain rfl := List.mem_singleton.mp listed
    exact plainly_formed ⟨by decide, by decide⟩ (by decide)

def onePage : UrlCrate Unit :=
  { pathsOnly with
    parse := fun _ => some ()
    join := fun _ _ => some ()
    to_string := fun _ => "https://a.example/l.xml".toList }

def termsLink : Bytes := utf8 "<https://a.example/terms>; rel=terms-of-service"

set_option maxRecDepth 100000 in
/-- The licence after another link is entered. -/
theorem links_entered_licence : ∃ member ∈ link_members (joined [termsLink, 32 :: licenceLink.write]),
    member.target = some (utf8 "/l.xml") ∧ Entered onePage (fun _ _ => "") "https://a.example/p".toList
      (rsl_links onePage (fun _ _ => "") "https://a.example/p".toList [joined [termsLink, 32 :: licenceLink.write]]) member := by
  have terms : Segment ([] ++ termsLink) := .neat rfl ⟨⟨OPEN, _, rfl, rfl⟩, Or.inl rfl⟩
  have licence : Segment ([32] ++ licenceLink.write) := by
    have neat := @write_neat licenceLink [] licenceLink_licensed.formed rfl
    rw [List.append_nil] at neat
    exact .neat rfl neat
  have segments : ∀ text ∈ [termsLink, 32 :: licenceLink.write], Segment text := by
    intro text listed
    rcases List.mem_cons.mp listed with rfl | listed
    · exact terms
    · exact (List.mem_singleton.mp listed) ▸ licence
  obtain ⟨member, listed, target, _, entered⟩ := (links_entered onePage (fun _ _ => "") "https://a.example/p".toList
    [joined [termsLink, 32 :: licenceLink.write]]).2.1 _ segments List.mem_cons_self [32] licenceLink [] rfl rfl
      licenceLink_licensed (by simp)
  exact ⟨member, listed, target, entered⟩

def cutShort : Bytes := utf8 "<a>; x=<\"b, license\">"

def nextLink : LinkValue := ⟨utf8 "l", [plainly "rel" "next"]⟩

set_option maxRecDepth 100000 in
/-- A member that could not be parsed takes in the next, though every quote and angle bracket of the field closes. -/
theorem next_swallowed : nextLink.Formed ∧ (joined [cutShort, nextLink.write]).foldl Scan.step .start = .start ∧
    ∃ member ∈ link_members (joined [cutShort, nextLink.write]), member.malformed.isSome = true ∧
      member.mentions_license = true ∧ member.raw = utf8 "license\">," ++ nextLink.write := by
  refine ⟨⟨by decide, fun param listed => ?_⟩, by decide, ?_⟩
  · obtain rfl := List.mem_singleton.mp listed
    exact plainly_formed ⟨by decide, by decide⟩ (by decide)
  · exact ⟨_, List.mem_cons_of_mem _ List.mem_cons_self, by decide, by decide, by decide⟩

end CommonMeasure.Declarations.Links
