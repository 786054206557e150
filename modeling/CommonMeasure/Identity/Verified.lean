import CommonMeasure.Identity.Rebuilt

/-!
# What is verified is what was signed

A request is signed, the client sets what it decides for itself, and the message is written.
-/

namespace CommonMeasure.Identity

open Http

/-! ### What a signature covers -/

structure Standard {Url : Type} (u : UrlParser Url) : Prop where
  host : ∀ url parsed host, u.parse url = .ok parsed → (u.scheme parsed = "http" ∨ u.scheme parsed = "https") →
    u.host_str parsed = some host → newline ∉ host
  path : ∀ url parsed, u.parse url = .ok parsed → (u.scheme parsed = "http" ∨ u.scheme parsed = "https") →
    u.path parsed ≠ [] ∧ 63 ∉ u.path parsed ∧ newline ∉ u.path parsed

/-- What a signer may ask to cover: fields no part of the client writes after signing, each once, with no white space around
their values. -/
structure Coverable (request : Request) (cover : List Bytes) : Prop where
  once : ∀ name ∈ cover, (valuesOf request.headers name).length ≤ 1
  apart : ((cover.filter fun name => valuesOf request.headers name ≠ []).map key).Nodup
  agent : ∀ name ∈ cover, key name ≠ key SIGNATURE_AGENT
  kept : ∀ name ∈ cover, valuesOf request.headers name ≠ [] →
    key name ∉ [SIGNATURE_INPUT, SIGNATURE, utf8 "Host", utf8 "Connection"].map key
  trimmed : ∀ name ∈ cover, ∀ value ∈ valuesOf request.headers name, trimOws value = value

def asked_named (asked : Derived × Bytes) : Bytes × Bytes := (utf8 asked.1.name, asked.2)

def cover_named (headers : Headers) (cover : List Bytes) : List (Bytes × Bytes) :=
  cover.filterMap fun name => (get headers name).map (Prod.mk (key name))

section

variable {Url : Type} {u : UrlParser Url} {identity : SigningIdentity} {url : String} {request : Request}
  {derived : List Derived} {cover : List Bytes}

theorem derived_components_ok {before : List Derived} {components : List (Bytes × Bytes)}
    (ok : derived_components u url request before derived = .ok components) :
    ∃ asked : List (Derived × Bytes), asked.map Prod.fst = derived ∧ components = (asked.map asked_named).map identified ∧
      derived.Nodup ∧ (∀ d ∈ derived, d ∉ before) ∧ ∀ one ∈ asked, derived_value u url request one.1 = .ok one.2 := by
  induction derived generalizing before components with
  | nil =>
    cases ok
    exact ⟨[], rfl, rfl, List.nodup_nil, by simp, by simp⟩
  | cons first rest ih =>
    rw [derived_components] at ok
    split at ok
    · cases ok
    · rename_i fresh
      split at ok
      · cases ok
      · rename_i value valued
        split at ok
        · cases ok
        · rename_i others found
          cases ok
          obtain ⟨asked, names, rfl, nodup, apart, values⟩ := ih found
          have not_before : first ∉ before := by simpa using fresh
          refine ⟨(first, value) :: asked, by simp [names], rfl, ?_, ?_, ?_⟩
          · refine List.nodup_cons.mpr ⟨fun listed => apart first listed (by simp), nodup⟩
          · exact List.forall_mem_cons.mpr ⟨not_before, fun d listed member => apart d listed (by simp [member])⟩
          · exact List.forall_mem_cons.mpr ⟨valued, values⟩

theorem cover_components_eq (headers : Headers) (cover : List Bytes) :
    cover_components headers cover = (cover_named headers cover).map identified := by
  unfold cover_components cover_named
  rw [List.map_filterMap]
  congr 1
  funext name
  simp [identified, Function.comp_def]

/-- What is covered: the authority and the agent, what was asked for, and the named headers the request carries. -/
structure Covers (u : UrlParser Url) (identity : SigningIdentity) (url : String) (request : Request) (derived : List Derived)
    (cover : List Bytes) (named : List (Bytes × Bytes)) where
  authority : Bytes
  authority_ok : authority_of u url = .ok authority
  asked : List (Derived × Bytes)
  names : asked.map Prod.fst = derived
  once : derived.Nodup
  values : ∀ one ∈ asked, derived_value u url request one.1 = .ok one.2
  all : named = (utf8 "@authority", authority) :: (utf8 "signature-agent", quote identity.origin) :: asked.map asked_named ++
    cover_named (with_agent identity request.headers) cover

theorem covered_components_ok {covered : List (Bytes × Bytes)}
    (ok : covered_components u identity url request derived cover = .ok covered) :
    ∃ named, covered = named.map identified ∧ Nonempty (Covers u identity url request derived cover named) := by
  unfold covered_components at ok
  split at ok
  · cases ok
  · rename_i authority authority_ok
    split at ok
    · cases ok
    · rename_i components asks
      cases ok
      obtain ⟨asked, names, rfl, once, _, values⟩ := derived_components_ok asks
      refine ⟨_, ?_, ⟨⟨authority, authority_ok, asked, names, once, values, rfl⟩⟩⟩
      simp [cover_components_eq, identified]

theorem sign_with_nonce_ok {record : Except String (Option EnrolmentRecord)} {created : Int} {nonce : Nonce} {signed : Request}
    (ok : sign_with_nonce u identity record url request derived cover created nonce = .ok signed) :
    ∃ named params, Nonempty (Covers u identity url request derived cover named) ∧
      params = params_of identity (named.map identified) created nonce ∧
      signed.method = request.method ∧
      signed.headers = set (set (with_agent identity request.headers) SIGNATURE_INPUT (SIGNATURE_LABEL ++ utf8 "=" ++ params))
        SIGNATURE (signature_of identity (signature_base (named.map identified) params)) := by
  unfold sign_with_nonce at ok
  split at ok
  · cases ok
  · split at ok
    · cases ok
    · rename_i covered found
      cases ok
      obtain ⟨named, rfl, covers⟩ := covered_components_ok found
      exact ⟨named, _, covers, rfl, rfl, rfl⟩

theorem exchange_ok {origin : Origin} {message : Request} (ok : exchange origin request = .ok message) :
    message.method = request.method ∧ message.target = origin.target ∧ checkFields message.headers = .ok () ∧
      valuesOf message.headers (utf8 "Host") = [origin.authority] ∧
      ∀ name, key name ≠ key (utf8 "Host") → key name ≠ key (utf8 "Connection") →
        (valuesOf request.headers name ≠ [] ∨ key name ≠ key (utf8 "Accept-Encoding")) →
        valuesOf message.headers name = valuesOf request.headers name := by
  obtain ⟨headers, headersIs⟩ : ∃ headers, set (set request.headers (utf8 "Host") origin.authority) (utf8 "Connection")
    (utf8 "close") = headers := ⟨_, rfl⟩
  have host : valuesOf headers (utf8 "Host") = [origin.authority] := by
    rw [← headersIs, set_others (by decide), set_own rfl]
  have others (name : Bytes) (one : key name ≠ key (utf8 "Host")) (two : key name ≠ key (utf8 "Connection")) :
      valuesOf headers name = valuesOf request.headers name := by
    rw [← headersIs, set_others two, set_others one]
  simp only [exchange, headersIs] at ok
  split at ok
  · rename_i absent
    have none_ : valuesOf headers (utf8 "Accept-Encoding") = [] := List.head?_eq_none_iff.mp absent
    split at ok
    · cases ok
    rename_i checked
    cases ok
    refine ⟨rfl, rfl, checked, ?_, ?_⟩
    · rw [set_others (by decide), host]
    · intro name one two present
      have apart : key name ≠ key (utf8 "Accept-Encoding") := by
        rcases present with present | apart
        · intro same
          rw [← others name one two, valuesOf_key same, none_] at present
          exact present rfl
        · exact apart
      rw [set_others apart, others name one two]
  · split at ok
    · split at ok
      · cases ok
      rename_i checked
      cases ok
      exact ⟨rfl, rfl, checked, host, fun name one two _ => others name one two⟩
    · cases ok

theorem lower_digits (n : Nat) : (Json.decimal n).map lower = Json.decimal n := by
  have each : ∀ b ∈ Json.decimal n, lower b = b := by
    intro b listed
    have digit := Json.decimal_digits n b listed
    apply if_neg
    rintro ⟨above, _⟩
    simp only [Json.isDigit, Bool.and_eq_true, decide_eq_true_eq, UInt8.le_iff_toNat_le] at digit above
    have most : b.toNat ≤ 57 := digit.2
    have least : 65 ≤ b.toNat := above
    omega
  rw [List.map_congr_left each, List.map_id']

theorem lower_with_port (host : Bytes) (port : Nat) : (with_port host port).map lower = with_port (host.map lower) port := by
  have colon : (utf8 ":").map lower = utf8 ":" := by decide
  rw [with_port, with_port, List.map_append, List.map_append, colon, lower_digits]

theorem origin_of_ok {origin : Origin} {authority : Bytes} (authorised : authority_of u url = .ok authority)
    (ok : origin_of u url = .ok origin) :
    ∃ parsed host, u.parse url = .ok parsed ∧ (u.scheme parsed = "http" ∨ u.scheme parsed = "https") ∧
      u.host_str parsed = some host ∧ path_of u url = .ok (u.path parsed) ∧ origin.authority.map lower = authority ∧
      (authority = host.map lower ∨ ∃ port, authority = with_port (host.map lower) port) ∧
      ∃ rest, origin.target = u.path parsed ++ rest ∧ (rest = [] ∨ rest.head? = some 63) := by
  have question : utf8 "?" = [63] := by decide
  obtain ⟨result, resultIs⟩ : ∃ result, parsed u url = result := ⟨_, rfl⟩
  simp only [authority_of, origin_of, path_of, resultIs] at authorised ok ⊢
  cases result with
  | error error => cases ok
  | ok parsed =>
    have parses : u.parse url = .ok parsed := by
      unfold Identity.parsed at resultIs
      split at resultIs
      · cases resultIs
        assumption
      · cases resultIs
    simp only at authorised ok ⊢
    split at ok
    · cases ok
    · rename_i http
      have scheme : u.scheme parsed = "http" ∨ u.scheme parsed = "https" := by
        by_contra neither
        exact http (not_or.mp neither)
      cases hosted : u.host_str parsed with
      | none =>
        rw [hosted] at ok
        cases ok
      | some host =>
        rw [hosted] at ok authorised
        simp only at ok authorised
        cases ok
        refine ⟨parsed, host, parses, scheme, hosted, rfl, ?_, ?_, ?_⟩
        · rcases scheme with scheme | scheme
          all_goals
            simp [scheme] at authorised ⊢
            rw [← authorised]
            cases u.port parsed with
            | none => simp
            | some port =>
              simp only [Option.getD_some]
              split <;> simp_all [lower_with_port]
        · rcases scheme with scheme | scheme
          all_goals
            simp [scheme] at authorised
            rw [← authorised]
            cases u.port parsed with
            | none => exact Or.inl rfl
            | some port =>
              simp only
              split
              · exact Or.inl rfl
              · exact Or.inr ⟨port, rfl⟩
        · cases u.query parsed with
          | none => exact ⟨[], by simp, Or.inl rfl⟩
          | some query => exact ⟨utf8 "?" ++ query, by simp, Or.inr (by rw [question]; rfl)⟩

end

structure Delivery {Url : Type} (u : UrlParser Url) where
  identity : SigningIdentity
  record : Except String (Option EnrolmentRecord)
  url : String
  request : Request
  derived : List Derived
  cover : List Bytes
  created : Int
  nonce : Nonce
  signed : Request
  message : Request
  coverable : Coverable request cover
  signs : sign_request_covering u identity record url request derived cover created (.ok nonce) = .ok signed
  sends : send_to u url signed = .ok message

theorem component_value_field {message : Request} {name value : Bytes} (plain : (64 : UInt8) ∉ name)
    (values : valuesOf message.headers name = [value]) (trimmed : trimOws value = value) :
    component_value message name = some value := by
  have at_ : (64 : UInt8) ∈ utf8 "@method" ∧ (64 : UInt8) ∈ utf8 "@authority" ∧ (64 : UInt8) ∈ utf8 "@path" := by decide
  have method : name ≠ utf8 "@method" := fun is => plain (is ▸ at_.1)
  have authority : name ≠ utf8 "@authority" := fun is => plain (is ▸ at_.2.1)
  have path : name ≠ utf8 "@path" := fun is => plain (is ▸ at_.2.2)
  rw [component_value, if_neg method, if_neg authority, if_neg path, values]
  simp [trimmed, List.intercalate]

theorem trimOws_component (value : Bytes) : trimOws (component value) = component value := by
  have solid : isOws quoteMark = false := by decide
  simp [trimOws, component, solid]

theorem takeWhile_path {path rest : Bytes} (plain : (63 : UInt8) ∉ path) (ends : rest = [] ∨ rest.head? = some 63) :
    (path ++ rest).takeWhile (· ≠ (63 : UInt8)) = path := by
  have all : ∀ b ∈ path, decide (b ≠ (63 : UInt8)) = true := by
    intro b listed
    rw [decide_eq_true_eq]
    rintro rfl
    exact plain listed
  rw [List.takeWhile_append_of_pos all]
  rcases ends with rfl | first
  · simp
  · cases rest with
    | nil => simp
    | cons b rest =>
      obtain rfl : b = 63 := by simpa using first
      simp

theorem mem_values {headers : Headers} {name value : Bytes} (listed : value ∈ valuesOf headers name) :
    ∃ field ∈ headers, key field.name = key name ∧ field.value = value := by
  obtain ⟨field, kept, rfl⟩ := List.mem_map.mp listed
  exact ⟨field, (List.mem_filter.mp kept).1, of_decide_eq_true (List.mem_filter.mp kept).2, rfl⟩

theorem checkField_ok {name value : Bytes} (ok : checkField name value = .ok ()) :
    name ≠ [] ∧ name.all isTokenByte = true ∧ newline ∉ value := by
  unfold checkField at ok
  split at ok
  · cases ok
  · rename_i token
    rw [not_or, not_not] at token
    split at ok
    · cases ok
    · rename_i clean
      refine ⟨token.1, token.2, fun listed => ?_⟩
      have := List.find?_eq_none.mp clean newline listed
      revert this
      decide

structure Held (message : Request) (one : Bytes × Bytes) : Prop where
  value : component_value message one.1 = some one.2
  name : Stated one.1
  line : one.1 ≠ utf8 "@method" → newline ∉ one.2

namespace Delivery

variable {Url : Type} {u : UrlParser Url} (d : Delivery u)

theorem kept : ∃ named params, Nonempty (Covers u d.identity d.url d.request d.derived d.cover named) ∧
    params = params_of d.identity (named.map identified) d.created d.nonce ∧
    valuesOf d.message.headers SIGNATURE_INPUT = [SIGNATURE_LABEL ++ utf8 "=" ++ params] ∧
    valuesOf d.message.headers SIGNATURE = [signature_of d.identity (signature_base (named.map identified) params)] ∧
    valuesOf d.message.headers SIGNATURE_AGENT = [quote d.identity.origin] ∧
    (∀ name ∈ d.cover, valuesOf d.request.headers name ≠ [] →
      valuesOf d.message.headers name = valuesOf d.request.headers name) ∧
    d.message.method = d.request.method ∧ checkFields d.message.headers = .ok () ∧
    ∃ origin, origin_of u d.url = .ok origin ∧ d.message.target = origin.target ∧
      valuesOf d.message.headers (utf8 "Host") = [origin.authority] := by
  obtain ⟨named, params, covers, paramsIs, method, headers⟩ := sign_with_nonce_ok d.signs
  have sends := d.sends
  unfold send_to at sends
  split at sends
  · cases sends
  · rename_i origin found
    obtain ⟨sameMethod, target, checked, host, others⟩ := exchange_ok sends
    have input : valuesOf d.signed.headers SIGNATURE_INPUT = [SIGNATURE_LABEL ++ utf8 "=" ++ params] := by
      rw [headers, set_others (by decide), set_own rfl]
    have signature : valuesOf d.signed.headers SIGNATURE =
        [signature_of d.identity (signature_base (named.map identified) params)] := by
      rw [headers, set_own rfl]
    have agent : valuesOf d.signed.headers SIGNATURE_AGENT = [quote d.identity.origin] := by
      rw [headers, set_others (by decide), set_others (by decide), with_agent, set_own rfl]
    refine ⟨named, params, covers, paramsIs, ?_, ?_, ?_, ?_, sameMethod.trans method, checked, origin, found, target, host⟩
    · rw [others _ (by decide) (by decide) (Or.inr (by decide)), input]
    · rw [others _ (by decide) (by decide) (Or.inr (by decide)), signature]
    · rw [others _ (by decide) (by decide) (Or.inr (by decide)), agent]
    · intro name listed present
      have apart := d.coverable.kept name listed present
      simp only [List.map_cons, List.map_nil, List.mem_cons, List.not_mem_nil, or_false, not_or] at apart
      have same : valuesOf d.signed.headers name = valuesOf d.request.headers name := by
        rw [headers, set_others apart.2.1, set_others apart.1, with_agent, set_others (d.coverable.agent name listed)]
      rw [others _ apart.2.2.1 apart.2.2.2 (Or.inl (same ▸ present)), same]

theorem covered_field {one : Bytes × Bytes} (listed : one ∈ cover_named (with_agent d.identity d.request.headers) d.cover) :
    ∃ name ∈ d.cover, one.1 = key name ∧ valuesOf d.request.headers name = [one.2] ∧
      valuesOf d.message.headers one.1 = [one.2] ∧ trimOws one.2 = one.2 ∧ one.1.all isTokenByte = true ∧ one.1 ≠ [] ∧
      newline ∉ one.2 := by
  obtain ⟨name, asked, found⟩ := List.mem_filterMap.mp listed
  obtain ⟨value, first, rfl⟩ := Option.map_eq_some_iff.mp found
  have unchanged : valuesOf (with_agent d.identity d.request.headers) name = valuesOf d.request.headers name :=
    set_others (d.coverable.agent name asked)
  rw [get, unchanged] at first
  have values : valuesOf d.request.headers name = [value] := by
    have once := d.coverable.once name asked
    cases held : valuesOf d.request.headers name with
    | nil =>
      rw [held] at first
      cases first
    | cons head rest =>
      rw [held] at first once
      have short : rest = [] := List.eq_nil_of_length_eq_zero (by simpa using once)
      rw [short, Option.some.inj first]
  obtain ⟨_, _, _, _, _, _, _, carried, _, checked, _⟩ := d.kept
  have message : valuesOf d.message.headers (key name) = [value] := by
    rw [valuesOf_key (key_key name), carried name asked (by simp [values]), values]
  obtain ⟨field, inside, named, valueIs⟩ := mem_values (message ▸ List.mem_singleton_self value)
  obtain ⟨some_, token, line⟩ := checkField_ok (checkFields_ok checked field inside)
  rw [key_key] at named
  refine ⟨name, asked, rfl, values, message, ?_, named ▸ key_token token, ?_, valueIs ▸ line⟩
  · exact d.coverable.trimmed name asked value (by simp [values])
  · rw [← named]
    simpa [key] using some_

theorem component_held (standard : Standard u) {named : List (Bytes × Bytes)}
    (covers : Covers u d.identity d.url d.request d.derived d.cover named) :
    ∀ one ∈ named, Held d.message one := by
  obtain ⟨_, _, _, _, _, _, agent, _, method, checked, origin, originIs, target, host⟩ := d.kept
  obtain ⟨parsed, hostText, parses, scheme, hosted, path, authority, shape, rest, targetIs, ends⟩ :=
    origin_of_ok covers.authority_ok originIs
  obtain ⟨pathSome, question, pathLine⟩ := standard.path d.url parsed parses scheme
  have hostLine := standard.host d.url parsed hostText parses scheme hosted
  have lowered {b : UInt8} (is : lower b = newline) : b = newline := by
    by_cases upper : 65 ≤ b ∧ b ≤ 90
    · have small := lower_upper upper
      rw [is] at small
      have ten : newline.toNat = 10 := rfl
      omega
    · rwa [show lower b = b from if_neg upper] at is
  have lowerLine : newline ∉ hostText.map lower := by
    intro listed
    obtain ⟨b, inside, is⟩ := List.mem_map.mp listed
    exact hostLine (lowered is ▸ inside)
  have authorityLine : newline ∉ covers.authority := by
    rcases shape with is | ⟨port, is⟩
    · rwa [is]
    · rw [is, with_port]
      simp only [List.mem_append, not_or]
      exact ⟨⟨lowerLine, by decide⟩, fun listed => (decimal_bytes port _ listed).2.2.2.2.1 rfl⟩
  have agentLine : newline ∉ quote d.identity.origin := by
    obtain ⟨field, inside, _, valueIs⟩ := mem_values (agent ▸ List.mem_singleton_self (quote d.identity.origin))
    exact valueIs ▸ (checkField_ok (checkFields_ok checked field inside)).2.2
  intro one listed
  rw [covers.all, List.cons_append, List.cons_append] at listed
  rcases List.mem_cons.mp listed with rfl | listed
  · refine ⟨?_, show Stated (utf8 "@authority") from ⟨by decide, by decide⟩, fun _ => authorityLine⟩
    show component_value d.message (utf8 "@authority") = some covers.authority
    rw [component_value, if_neg (by decide), if_pos rfl, host]
    exact congrArg some authority
  rcases List.mem_cons.mp listed with rfl | listed
  · have agentKey : key SIGNATURE_AGENT = key (utf8 "signature-agent") := by decide
    have plain : (64 : UInt8) ∉ utf8 "signature-agent" := by decide
    have values := (valuesOf_key agentKey).symm.trans agent
    exact ⟨component_value_field plain values (trimOws_component _),
      show Stated (utf8 "signature-agent") from ⟨by decide, by decide⟩, fun _ => agentLine⟩
  rcases List.mem_append.mp listed with listed | listed
  · obtain ⟨⟨asked, value⟩, inside, rfl⟩ := List.mem_map.mp listed
    have valued := covers.values _ inside
    cases asked with
    | Method =>
      cases valued
      refine ⟨?_, show Stated (utf8 "@method") from ⟨by decide, by decide⟩, fun other => (other rfl).elim⟩
      show component_value d.message (utf8 "@method") = some d.request.method
      rw [component_value, if_pos rfl, method]
    | Path =>
      rw [derived_value, path] at valued
      cases valued
      refine ⟨?_, show Stated (utf8 "@path") from ⟨by decide, by decide⟩, fun _ => pathLine⟩
      show component_value d.message (utf8 "@path") = some (u.path parsed)
      rw [component_value, if_neg (by decide), if_neg (by decide), if_pos rfl, target, targetIs,
        takeWhile_path question ends]
      exact congrArg some (if_neg pathSome)
  · obtain ⟨name, asked, _, _, message, trimmed, token, some_, line⟩ := d.covered_field listed
    have plain : (64 : UInt8) ∉ one.1 := fun inside => (token_apart (List.all_eq_true.mp token 64 inside)).2.2.2.1 rfl
    exact ⟨component_value_field plain message trimmed, stated_token some_ token, fun _ => line⟩

theorem cover_names_nodup : ((cover_named (with_agent d.identity d.request.headers) d.cover).map Prod.fst).Nodup := by
  have names (headers : Headers) (cover : List Bytes) :
      (cover_named headers cover).map Prod.fst = (cover.filter fun name => valuesOf headers name ≠ []).map key := by
    induction cover with
    | nil => rfl
    | cons name rest ih =>
      unfold cover_named at ih ⊢
      rw [List.filterMap_cons, List.filter_cons, get]
      cases values : valuesOf headers name with
      | nil => simpa [values] using ih
      | cons value others => simpa [values] using ih
  have unchanged : ∀ name ∈ d.cover, decide (valuesOf (with_agent d.identity d.request.headers) name ≠ []) =
      decide (valuesOf d.request.headers name ≠ []) := by
    intro name asked
    rw [with_agent, set_others (d.coverable.agent name asked)]
  rw [names, List.filter_congr unchanged]
  exact d.coverable.apart

theorem names_nodup {named : List (Bytes × Bytes)} (covers : Covers u d.identity d.url d.request d.derived d.cover named) :
    (named.map Prod.fst).Nodup := by
  have fields : ∀ name ∈ (cover_named (with_agent d.identity d.request.headers) d.cover).map Prod.fst,
      (64 : UInt8) ∉ name ∧ name ≠ utf8 "signature-agent" := by
    intro name listed
    obtain ⟨one, inside, rfl⟩ := List.mem_map.mp listed
    obtain ⟨asked, member, is, _, _, _, token, _⟩ := d.covered_field inside
    refine ⟨fun at_ => (token_apart (List.all_eq_true.mp token 64 at_)).2.2.2.1 rfl, fun same => ?_⟩
    have agent : key SIGNATURE_AGENT = utf8 "signature-agent" := by decide
    exact d.coverable.agent asked member (is.symm.trans (same.trans agent.symm))
  have askedNames : (covers.asked.map asked_named).map Prod.fst = d.derived.map fun asked => utf8 asked.name := by
    have names := congrArg (List.map fun asked : Derived => utf8 asked.name) covers.names
    rw [List.map_map] at names ⊢
    exact names
  have apart : Function.Injective fun asked : Derived => utf8 asked.name := by
    rintro (_ | _) (_ | _) same
    · rfl
    · exact absurd same (by decide)
    · exact absurd same (by decide)
    · rfl
  have derivedAt : ∀ name ∈ d.derived.map (fun asked => utf8 asked.name), (64 : UInt8) ∈ name ∧ name ≠ utf8 "@authority" := by
    intro name listed
    obtain ⟨asked, _, rfl⟩ := List.mem_map.mp listed
    cases asked <;> decide
  rw [covers.all, List.cons_append, List.cons_append, List.map_cons, List.map_cons, List.map_append, askedNames]
  have authorityAt : utf8 "@authority" ≠ utf8 "signature-agent" ∧ (64 : UInt8) ∈ utf8 "@authority" := by decide
  have agentAt : (64 : UInt8) ∉ utf8 "signature-agent" := by decide
  refine List.nodup_cons.mpr ⟨?_, List.nodup_cons.mpr ⟨?_, List.nodup_append'.mpr ⟨covers.once.map apart, d.cover_names_nodup, ?_⟩⟩⟩
  · intro listed
    rcases List.mem_cons.mp listed with same | listed
    · exact authorityAt.1 same
    rcases List.mem_append.mp listed with listed | listed
    · exact (derivedAt _ listed).2 rfl
    · exact (fields _ listed).1 authorityAt.2
  · intro listed
    rcases List.mem_append.mp listed with listed | listed
    · exact agentAt (derivedAt _ listed).1
    · exact (fields _ listed).2 rfl
  · intro name one two
    exact (fields name two).1 (derivedAt name one).1

structure Made (named : List (Bytes × Bytes)) (params : Bytes) : Prop where
  covers : Nonempty (Covers u d.identity d.url d.request d.derived d.cover named)
  params_eq : params = params_of d.identity (named.map identified) d.created d.nonce
  names : stated_components params = some (named.map Prod.fst)
  stated : stated d.message = some (named, params)
  input : valuesOf d.message.headers SIGNATURE_INPUT = [SIGNATURE_LABEL ++ utf8 "=" ++ params]
  signature : valuesOf d.message.headers SIGNATURE = [signature_of d.identity (signature_base (named.map identified) params)]

theorem made (standard : Standard u) : ∃ named params, d.Made named params := by
  obtain ⟨named, params, ⟨covers⟩, paramsIs, input, signature, _⟩ := d.kept
  have held := d.component_held standard covers
  have identifiers : (named.map identified).map Prod.fst = (named.map Prod.fst).map component := by
    rw [List.map_map, List.map_map]
    rfl
  have some_ : named.map Prod.fst ≠ [] := by
    rw [covers.all]
    simp
  have names : stated_components params = some (named.map Prod.fst) := by
    rw [paramsIs, params_of, identifiers]
    apply stated_signature_params some_
    intro name listed
    obtain ⟨one, inside, rfl⟩ := List.mem_map.mp listed
    exact (held one inside).name.1
  have values : (named.map Prod.fst).mapM (fun name => (component_value d.message name).map (Prod.mk name)) = some named := by
    apply mapM_listed
    intro one listed
    rw [(held one listed).value]
    rfl
  have read : stated_params d.message = some params := by
    rw [stated_params, input]
    simp
  refine ⟨named, params, ⟨covers⟩, paramsIs, names, ?_, input, signature⟩
  simp only [Identity.stated, read, Option.bind_eq_bind, Option.bind_some, names, if_pos (d.names_nodup covers), values]
  rfl

end Delivery

end CommonMeasure.Identity
