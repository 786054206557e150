import CommonMeasure.Identity.Verified

/-!
# One base, one request

Two messages of one base state the same.
-/

namespace CommonMeasure.Identity

open Http

/-! ### Cutting bytes -/

theorem split_first {b : UInt8} {x y r s : Bytes} (plain : b ∉ x) (other : b ∉ y) (same : x ++ b :: r = y ++ b :: s) :
    x = y ∧ r = s := by
  have inside {x y as r s : Bytes} (plain : b ∉ y) (whole : y = x ++ as) (same : b :: r = as ++ b :: s) : as = [] := by
    cases as with
    | nil => rfl
    | cons a as =>
      rw [List.cons_append, List.cons.injEq] at same
      rw [whole, same.1] at plain
      simp at plain
  rcases List.append_eq_append_iff.mp same with ⟨as, whole, rest⟩ | ⟨as, whole, rest⟩
  · obtain rfl := inside other whole rest
    rw [List.append_nil] at whole
    exact ⟨whole.symm, by simpa using rest⟩
  · obtain rfl := inside plain whole rest
    rw [List.append_nil] at whole
    exact ⟨whole, by simpa using rest.symm⟩

theorem split_counted {x y r s : Bytes} (count : r.count newline = s.count newline)
    (same : x ++ newline :: r = y ++ newline :: s) : x = y ∧ r = s := by
  have inside {as r s : Bytes} (count : r.count newline = s.count newline) (same : newline :: r = as ++ newline :: s) :
      as = [] := by
    cases as with
    | nil => rfl
    | cons a as =>
      rw [List.cons_append, List.cons.injEq] at same
      rw [same.2, List.count_append, List.count_cons_self] at count
      omega
  rcases List.append_eq_append_iff.mp same with ⟨as, whole, rest⟩ | ⟨as, whole, rest⟩
  · obtain rfl := inside count rest
    rw [List.append_nil] at whole
    exact ⟨whole.symm, by simpa using rest⟩
  · obtain rfl := inside count.symm rest
    rw [List.append_nil] at whole
    exact ⟨whole, by simpa using rest.symm⟩

def lines (named : List (Bytes × Bytes)) : Bytes := (named.map identified).flatMap componentLine

theorem lines_cons (one : Bytes × Bytes) (rest : List (Bytes × Bytes)) :
    lines (one :: rest) = component one.1 ++ utf8 ": " ++ (one.2 ++ newline :: lines rest) := by
  simp [lines, componentLine, identified]

theorem lines_end {named : List (Bytes × Bytes)} (some_ : named ≠ []) : ∃ most, lines named = most ++ [newline] := by
  obtain ⟨init, last, rfl⟩ := List.eq_nil_or_concat named |>.resolve_left some_
  refine ⟨lines init ++ (component last.1 ++ utf8 ": " ++ last.2), ?_⟩
  simp [lines, componentLine, identified]

theorem component_line {name : Bytes} (plain : newline ∉ name) : newline ∉ component name := by
  have mark : newline ≠ quoteMark := by decide
  simp [component, plain, mark]

theorem count_lines {named : List (Bytes × Bytes)} (plain : ∀ one ∈ named, newline ∉ one.1 ∧ newline ∉ one.2) :
    (lines named).count newline = named.length := by
  induction named with
  | nil => rfl
  | cons one rest ih =>
    obtain ⟨first, others⟩ := List.forall_mem_cons.mp plain
    have colon : newline ∉ utf8 ": " := by decide
    rw [lines_cons, List.count_append, List.count_append, List.count_append, List.count_cons_self, ih others,
      List.count_eq_zero_of_not_mem (component_line first.1), List.count_eq_zero_of_not_mem colon,
      List.count_eq_zero_of_not_mem first.2, List.length_cons]
    omega

theorem lines_injective {named others : List (Bytes × Bytes)} (names : named.map Prod.fst = others.map Prod.fst)
    (once : (named.map Prod.fst).Nodup) (plain : ∀ one ∈ named, Stated one.1 ∧ (one.1 ≠ utf8 "@method" → newline ∉ one.2))
    (also : ∀ one ∈ others, one.1 ≠ utf8 "@method" → newline ∉ one.2) (same : lines named = lines others) : named = others := by
  induction named generalizing others with
  | nil => exact (List.map_eq_nil_iff.mp names.symm).symm
  | cons one rest ih =>
    cases others with
    | nil => cases names
    | cons other more =>
      obtain ⟨name, value⟩ := one
      obtain ⟨name', value'⟩ := other
      rw [List.map_cons, List.map_cons, List.cons.injEq] at names
      obtain ⟨rfl, names⟩ := names
      rw [List.map_cons, List.nodup_cons] at once
      obtain ⟨first, later⟩ := List.forall_mem_cons.mp plain
      obtain ⟨firstAlso, laterAlso⟩ := List.forall_mem_cons.mp also
      rw [lines_cons, lines_cons] at same
      have cut := List.append_cancel_left same
      have parts : value = value' ∧ lines rest = lines more := by
        by_cases method : name = utf8 "@method"
        · have fresh : ∀ one ∈ rest, one.1 ≠ utf8 "@method" := by
            intro one listed is
            exact once.1 (List.mem_map.mpr ⟨one, listed, is.trans method.symm⟩)
          have freshAlso : ∀ one ∈ more, newline ∉ one.1 ∧ one.1 ≠ utf8 "@method" := by
            intro one listed
            obtain ⟨two, inside, is⟩ := List.mem_map.mp (names ▸ List.mem_map_of_mem listed)
            exact ⟨is ▸ (later two inside).1.2, is ▸ fresh two inside⟩
          apply split_counted _ cut
          rw [count_lines fun one listed => ⟨(later one listed).1.2, (later one listed).2 (fresh one listed)⟩,
            count_lines fun one listed => ⟨(freshAlso one listed).1, laterAlso one listed (freshAlso one listed).2⟩]
          simpa using congrArg List.length names
        · exact split_first (first.2 method) (firstAlso method) cut
      rw [parts.1, ih names once.2 later laterAlso parts.2]

theorem integer_injective {a b : Int} (same : integer a = integer b) : a = b := by
  have sign (m n : Nat) : Json.decimal m ≠ 45 :: Json.decimal n := by
    intro is
    have digit := Json.decimal_digits m 45 (is ▸ List.mem_cons_self)
    revert digit
    decide
  have naturals {m n : Nat} (same : Json.decimal m = Json.decimal n) : m = n := by
    rw [← decimalValue_decimal m, same, decimalValue_decimal]
  cases a with
  | ofNat m =>
    cases b with
    | ofNat n => exact congrArg Int.ofNat (naturals same)
    | negSucc n => exact (sign m _ same).elim
  | negSucc m =>
    cases b with
    | ofNat n => exact (sign n _ same.symm).elim
    | negSucc n => exact congrArg Int.negSucc (Nat.succ.inj (naturals (List.cons.inj same).2))

theorem integer_plain (n : Int) : 59 ∉ integer n := by
  have digits (n : Nat) : 59 ∉ Json.decimal n := by
    intro listed
    have digit := Json.decimal_digits n 59 listed
    revert digit
    decide
  cases n with
  | ofNat n => exact digits n
  | negSucc n =>
    rw [integer, List.mem_cons, not_or]
    exact ⟨by decide, digits (n + 1)⟩

theorem unquotable {text : Bytes} (safe : text.all isUrlSafe = true) : quoteMark ∉ text := by
  intro listed
  have mark := List.all_eq_true.mp safe quoteMark listed
  revert mark
  decide

theorem params_tail_injective {created other expires : Int} {key_id key_id' nonce nonce' : Bytes}
    (quoted : quoteMark ∉ key_id ∧ quoteMark ∉ key_id') (fresh : quoteMark ∉ nonce ∧ quoteMark ∉ nonce')
    (lifetime : expires = created + SIGNATURE_LIFETIME_SECS)
    (same : params_tail created expires key_id nonce TAG =
      params_tail other (other + SIGNATURE_LIFETIME_SECS) key_id' nonce' TAG) :
    created = other ∧ key_id = key_id' ∧ nonce = nonce' := by
  have expiresText : utf8 ";expires=" = 59 :: utf8 "expires=" := by decide
  subst lifetime
  simp only [params_tail, component, expiresText, List.append_assoc, List.cons_append, List.nil_append] at same
  obtain ⟨dates, rest⟩ := split_first (integer_plain created) (integer_plain other) (List.append_cancel_left same)
  obtain rfl := integer_injective dates
  have rest := List.append_cancel_left (List.append_cancel_left (List.append_cancel_left rest))
  obtain ⟨keys, rest⟩ := split_first quoted.1 quoted.2 (List.cons.inj rest).2
  have rest := List.append_cancel_left (List.cons.inj (List.append_cancel_left rest)).2
  have rest := (List.cons.inj (List.append_cancel_left (List.cons.inj rest).2)).2
  exact ⟨rfl, keys, (split_first fresh.1 fresh.2 rest).1⟩

namespace Delivery

variable {Url : Type} {u : UrlParser Url}

theorem Made.line {d : Delivery u} {named : List (Bytes × Bytes)} {params : Bytes} (made : d.Made named params) :
    newline ∉ params := by
  obtain ⟨_, _, _, _, _, _, _, _, _, checked, _⟩ := d.kept
  obtain ⟨field, inside, _, valueIs⟩ := mem_values (made.input ▸ List.mem_singleton_self (SIGNATURE_LABEL ++ utf8 "=" ++ params))
  have line := (checkField_ok (checkFields_ok checked field inside)).2.2
  rw [valueIs] at line
  exact fun listed => line (List.mem_append_right _ listed)

theorem Made.some_ {d : Delivery u} {named : List (Bytes × Bytes)} {params : Bytes} (made : d.Made named params) :
    named ≠ [] := by
  obtain ⟨covers⟩ := made.covers
  rw [covers.all]
  simp

theorem Made.params_injective {d e : Delivery u} {named : List (Bytes × Bytes)} {params : Bytes} (made : d.Made named params)
    (also : e.Made named params) : d.created = e.created ∧ d.identity.key_id = e.identity.key_id ∧
      d.nonce.text = e.nonce.text := by
  have same := made.params_eq.symm.trans also.params_eq
  simp only [params_of, signature_params_eq, List.cons.injEq, true_and] at same
  exact params_tail_injective ⟨unquotable d.identity.thumbprint, unquotable e.identity.thumbprint⟩
    ⟨unquotable d.nonce.drawn, unquotable e.nonce.drawn⟩ rfl (List.cons.inj (List.append_cancel_left same)).2

theorem one_base (standard : Standard u) (d e : Delivery u) (same : rebuilt d.message = rebuilt e.message) :
    stated d.message = stated e.message ∧ d.created = e.created ∧ d.identity.key_id = e.identity.key_id ∧
      d.nonce.text = e.nonce.text := by
  obtain ⟨named, params, made⟩ := d.made standard
  obtain ⟨others, others_params, also⟩ := e.made standard
  obtain ⟨most, mostIs⟩ := lines_end made.some_
  obtain ⟨other_most, otherIs⟩ := lines_end also.some_
  have opened : newline ∉ component (utf8 "@signature-params") ++ utf8 ": " := by decide
  have bases : most ++ newline :: (component (utf8 "@signature-params") ++ utf8 ": " ++ params) =
      other_most ++ newline :: (component (utf8 "@signature-params") ++ utf8 ": " ++ others_params) := by
    rw [rebuilt, rebuilt, made.stated, also.stated] at same
    have same : lines named ++ component (utf8 "@signature-params") ++ utf8 ": " ++ params =
        lines others ++ component (utf8 "@signature-params") ++ utf8 ": " ++ others_params := Option.some.inj same
    rw [mostIs, otherIs] at same
    simpa using same
  have free {params : Bytes} (line : newline ∉ params) :
      (component (utf8 "@signature-params") ++ utf8 ": " ++ params).count newline = 0 := by
    rw [List.count_append, List.count_eq_zero_of_not_mem opened, List.count_eq_zero_of_not_mem line]
  obtain ⟨mosts, ends⟩ := split_counted ((free made.line).trans (free also.line).symm) bases
  obtain rfl := List.append_cancel_left ends
  have names : named.map Prod.fst = others.map Prod.fst :=
    Option.some.inj (made.names.symm.trans also.names)
  have one : named = others := by
    obtain ⟨covers⟩ := made.covers
    obtain ⟨alsoCovers⟩ := also.covers
    have held := d.component_held standard covers
    apply lines_injective names (d.names_nodup covers) (fun one listed => ⟨(held one listed).name, (held one listed).line⟩)
      (fun one listed => (e.component_held standard alsoCovers one listed).line)
    rw [mostIs, otherIs, mosts]
  subst one
  exact ⟨made.stated.trans also.stated.symm, made.params_injective also⟩

end Delivery

def MAX_REDIRECTS : Nat := 5

def CONTENT_TELEMETRY_ID : Bytes := utf8 "Content-Telemetry-ID"

/-- What a chain of requests consults, at each hop: whether the host is reached, in time and at addresses it may be reached
at; the enrolment record, the clock and a nonce; and the URL an answer leads to, if one may be followed. -/
structure World where
  host_of : String → String
  reached : Nat → String → Bool
  record : Nat → Except String (Option EnrolmentRecord)
  now : Nat → Int
  nonce : Nat → Except String Nonce
  leads_to : Nat → String → Request → Option String

section

variable {Url : Type} (u : UrlParser Url) (w : World) (identity : Option SigningIdentity) (request : Request)

def hop_headers (first : String) (hop : Nat) (current : String) : Headers :=
  let headers := if w.host_of current = w.host_of first then request.headers else remove request.headers CONTENT_TELEMETRY_ID
  if 0 < hop then remove headers (utf8 "Authorization") else headers

def hop_request (first : String) (hop : Nat) (current : String) : Except String Request :=
  let hop_request : Request := ⟨utf8 "GET", utf8 "/", hop_headers w request first hop current, []⟩
  match identity with
  | none => .ok hop_request
  | some identity =>
    sign_request u identity (w.record hop) current hop_request [CONTENT_TELEMETRY_ID] (w.now hop) (w.nonce hop)

def follow_resolving (first : String) : Nat → Nat → String → List (String × Request)
  | 0, _, _ => []
  | left + 1, hop, current =>
    if !w.reached hop current then []
    else match hop_request u w identity request first hop current with
      | .error _ => []
      | .ok hop_request =>
        (current, hop_request) :: match w.leads_to hop current hop_request with
          | none => []
          | some next => follow_resolving first left (hop + 1) next

/-- A message carries one signature, over a base that begins with the authority of its URL, which its one `Host` names. -/
def SignedFor (identity : SigningIdentity) (url : String) (message : Request) : Prop :=
  ∃ authority host rest params, authority_of u url = .ok authority ∧
    valuesOf message.headers (utf8 "Host") = [host] ∧ host.map lower = authority ∧
    valuesOf message.headers SIGNATURE_INPUT = [SIGNATURE_LABEL ++ utf8 "=" ++ params] ∧
    valuesOf message.headers SIGNATURE =
      [signature_of identity (signature_base ((component (utf8 "@authority"), authority) :: rest) params)]

def Unsigned (sent : Request) : Prop := valuesOf sent.headers SIGNATURE_INPUT = [] ∧ valuesOf sent.headers SIGNATURE = []

def Carries (identity : Option SigningIdentity) (url : String) (message : Request) : Prop :=
  match identity with
  | none => Unsigned message
  | some signer => SignedFor u signer url message

end

section

variable {Url : Type} {u : UrlParser Url} {w : World} {identity : Option SigningIdentity} {request : Request}

theorem hop_unsigned (unsigned : Unsigned request) (first : String) (hop : Nat) (current : String) :
    Unsigned ⟨utf8 "GET", utf8 "/", hop_headers w request first hop current, []⟩ := by
  have each {name : Bytes} (none_ : valuesOf request.headers name = []) :
      valuesOf (hop_headers w request first hop current) name = [] := by
    simp only [hop_headers]
    split <;> split
    · exact remove_none none_
    · exact remove_none (remove_none none_)
    · exact none_
    · exact remove_none none_
  exact ⟨each unsigned.1, each unsigned.2⟩

theorem send_to_ok {url : String} {message : Request} (ok : send_to u url request = .ok message) :
    ∃ origin, origin_of u url = .ok origin ∧ exchange origin request = .ok message := by
  unfold send_to at ok
  split at ok
  · cases ok
  · rename_i origin found
    exact ⟨origin, found, ok⟩

theorem sent_unsigned {url : String} {message : Request} (unsigned : Unsigned request)
    (ok : send_to u url request = .ok message) : Unsigned message := by
  obtain ⟨origin, _, exchanged⟩ := send_to_ok ok
  obtain ⟨_, _, _, _, others⟩ := exchange_ok exchanged
  constructor
  · rw [others _ (by decide) (by decide) (Or.inr (by decide))]
    exact unsigned.1
  · rw [others _ (by decide) (by decide) (Or.inr (by decide))]
    exact unsigned.2

theorem sent_signed {signer : SigningIdentity} {record : Except String (Option EnrolmentRecord)} {url : String}
    {derived : List Derived} {cover : List Bytes} {created : Int} {nonce : Except String Nonce} {signed message : Request}
    (ok : sign_request_covering u signer record url request derived cover created nonce = .ok signed)
    (sends : send_to u url signed = .ok message) : SignedFor u signer url message := by
  unfold sign_request_covering at ok
  split at ok
  · cases ok
  · obtain ⟨named, params, ⟨covers⟩, _, _, headers⟩ := sign_with_nonce_ok ok
    obtain ⟨origin, originIs, exchanged⟩ := send_to_ok sends
    obtain ⟨_, _, _, host, others⟩ := exchange_ok exchanged
    obtain ⟨_, _, _, _, _, _, authority, _⟩ := origin_of_ok covers.authority_ok originIs
    obtain ⟨rest, restIs⟩ : ∃ rest, named.map identified = (component (utf8 "@authority"), covers.authority) :: rest :=
      ⟨_, congrArg (List.map identified) covers.all⟩
    refine ⟨covers.authority, origin.authority, rest, params, covers.authority_ok, host, authority, ?_, ?_⟩
    · rw [others _ (by decide) (by decide) (Or.inr (by decide)), headers, set_others (by decide), set_own rfl]
    · rw [others _ (by decide) (by decide) (Or.inr (by decide)), headers, set_own rfl, restIs]

theorem hops_signed (unsigned : identity = none → Unsigned request) (first : String) (left hop : Nat) (current : String) :
    ∀ sent ∈ follow_resolving u w identity request first left hop current, ∀ message,
      send_to u sent.1 sent.2 = .ok message → Carries u identity sent.1 message := by
  induction left generalizing hop current with
  | zero => simp [follow_resolving]
  | succ left ih =>
    intro sent listed message sends
    rw [follow_resolving] at listed
    split at listed
    · cases listed
    · split at listed
      · cases listed
      · rename_i made ok
        rcases List.mem_cons.mp listed with rfl | later
        · cases identity with
          | none =>
            cases ok
            exact sent_unsigned (hop_unsigned (unsigned rfl) first hop current) sends
          | some signer => exact sent_signed ok sends
        · split at later
          · cases later
          · exact ih _ _ sent later message sends

end

/-- What a signer signed is what a verifier rebuilds from the message, one base says one thing, and along a chain of
redirects no message carries a signature made for another's authority. -/
theorem rebuilt_as_signed {Url : Type} {u : UrlParser Url} (standard : Standard u) :
    (∀ d : Delivery u, ∃ base, rebuilt d.message = some base ∧
      valuesOf d.message.headers SIGNATURE = [signature_of d.identity base]) ∧
    (∀ d e : Delivery u, rebuilt d.message = rebuilt e.message → stated d.message = stated e.message ∧
      d.created = e.created ∧ d.identity.key_id = e.identity.key_id ∧ d.nonce.text = e.nonce.text) ∧
    ∀ (w : World) (identity : Option SigningIdentity) (request : Request) (url : String),
      (identity = none → Unsigned request) →
      ∀ sent ∈ follow_resolving u w identity request url (MAX_REDIRECTS + 1) 0 url, ∀ message,
        send_to u sent.1 sent.2 = .ok message → Carries u identity sent.1 message := by
  refine ⟨fun d => ?_, Delivery.one_base standard, fun w identity request url unsigned => hops_signed unsigned url _ 0 url⟩
  obtain ⟨named, params, made⟩ := d.made standard
  exact ⟨signature_base (named.map identified) params, by rw [rebuilt, made.stated]; rfl, made.signature⟩

/-! ### A site -/

def frontPage : UrlParser Unit where
  parse _ := .ok ()
  scheme _ := "https"
  host_str _ := some (utf8 "a.example")
  port _ := none
  path _ := utf8 "/"
  query _ := none

def signer : SigningIdentity where
  sign_raw base := [base.foldl (· + ·) 0]
  standard bytes := bytes.flatMap fun b => [65 + b / 16, 65 + b % 16]
  key_id := utf8 "k"
  thumbprint := by decide
  origin := utf8 "https://hub.example"
  enrolment_home := none

def drawn : Nonce := ⟨utf8 "n", by decide⟩

theorem frontPage_standard : Standard frontPage where
  host _ _ host _ _ is := by
    cases is
    decide
  path _ _ _ _ := show utf8 "/" ≠ [] ∧ 63 ∉ utf8 "/" ∧ newline ∉ utf8 "/" by decide

def asking (headers : Headers) : Request := ⟨utf8 "GET", utf8 "/", headers, []⟩

def signedOf (headers : Headers) (cover : List Bytes) : Except String Request :=
  sign_request_covering frontPage signer (.ok none) "https://a.example/" (asking headers) [] cover 0 (.ok drawn)

def verified (message : Request) : Bool :=
  (rebuilt message).any fun base => valuesOf message.headers SIGNATURE = [signature_of signer base]

def check (headers : Headers) (cover : List Bytes) : Option Bool :=
  match signedOf headers cover with
  | .error _ => none
  | .ok signed =>
    match send_to frontPage "https://a.example/" signed with
    | .error _ => none
    | .ok message => some (verified message)

theorem check_some {headers : Headers} {cover : List Bytes} {answer : Bool} (is : check headers cover = some answer) :
    ∃ signed message, signedOf headers cover = .ok signed ∧ send_to frontPage "https://a.example/" signed = .ok message ∧
      verified message = answer := by
  unfold check at is
  split at is
  · cases is
  · rename_i signed signs
    split at is
    · cases is
    · rename_i message sends
      exact ⟨signed, message, signs, sends, Option.some.inj is⟩

def field (name value : String) : Field := ⟨utf8 name, utf8 value, none⟩

def telemetry : Headers := [field "Content-Telemetry-ID" "t"]

theorem telemetry_coverable : Coverable (asking telemetry) [CONTENT_TELEMETRY_ID] where
  once := by decide
  apart := by decide
  agent := by decide
  kept := by decide
  trimmed := by decide

set_option maxRecDepth 100000 in
theorem telemetry_sent : check telemetry [CONTENT_TELEMETRY_ID] = some true := by decide

def answering : World where
  host_of url := url
  reached _ _ := true
  record _ := .ok none
  now _ := 0
  nonce _ := .ok drawn
  leads_to _ _ _ := none

theorem rebuilt_telemetry :
    (∃ d : Delivery frontPage, d.request = asking telemetry ∧ d.cover = [CONTENT_TELEMETRY_ID] ∧
      ∃ base, rebuilt d.message = some base ∧ valuesOf d.message.headers SIGNATURE = [signature_of d.identity base]) ∧
    ∃ sent ∈ follow_resolving frontPage answering (some signer) (asking telemetry) "https://a.example/" 6 0 "https://a.example/",
      ∃ message, send_to frontPage sent.1 sent.2 = .ok message ∧ Carries frontPage (some signer) sent.1 message := by
  obtain ⟨signed, message, signs, sends, _⟩ := check_some telemetry_sent
  let d : Delivery frontPage := ⟨signer, .ok none, _, asking telemetry, [], [CONTENT_TELEMETRY_ID], 0, drawn, signed, message,
    telemetry_coverable, signs, sends⟩
  have first : hop_request frontPage answering (some signer) (asking telemetry) "https://a.example/" 0 "https://a.example/" =
      .ok signed := signs
  have listed : ("https://a.example/", signed) ∈
      follow_resolving frontPage answering (some signer) (asking telemetry) "https://a.example/" 6 0 "https://a.example/" := by
    rw [follow_resolving, first]
    exact List.mem_cons_self
  have all := rebuilt_as_signed frontPage_standard
  exact ⟨⟨d, rfl, rfl, all.1 d⟩, _, listed, message, sends,
    all.2.2 answering (some signer) (asking telemetry) _ nofun _ listed message sends⟩

/-- Whether what is sent verifies, whatever fields a request without line breaks in them has and asks to cover. -/
def Verifies (headers : Headers) (cover : List Bytes) : Prop :=
  (∀ field ∈ headers, newline ∉ field.value ∧ carriageReturn ∉ field.value) →
    (∀ name ∈ cover, (valuesOf headers name).length ≤ 1) →
    ∀ signed message, signedOf headers cover = .ok signed → send_to frontPage "https://a.example/" signed = .ok message →
      ∃ base, rebuilt message = some base ∧ valuesOf message.headers SIGNATURE = [signature_of signer base]

/-- A field the client writes after it, one that is covered already, and one with white space around its value. -/
def uncoverable : List (Headers × List Bytes) :=
  [([field "Host" "b.example"], [utf8 "Host"]), ([], [SIGNATURE_AGENT]), ([field "X" " x"], [utf8 "X"])]

set_option maxRecDepth 100000 in
theorem uncoverable_unverified : ∀ one ∈ uncoverable, ¬Verifies one.1 one.2 := by
  have answers : ∀ one ∈ uncoverable, check one.1 one.2 = some false := by decide
  have plain : ∀ one ∈ uncoverable, (∀ field ∈ one.1, newline ∉ field.value ∧ carriageReturn ∉ field.value) ∧
      ∀ name ∈ one.2, (valuesOf one.1 name).length ≤ 1 := by decide
  intro one listed verifies
  obtain ⟨signed, message, signs, sends, answer⟩ := check_some (answers one listed)
  obtain ⟨base, rebuilds, signature⟩ := verifies (plain one listed).1 (plain one listed).2 signed message signs sends
  rw [verified, rebuilds, Option.any_some, signature] at answer
  simp at answer

/-- Neither a host, nor an agent that is not sent, nor a value with white space at its end is rebuilt. -/
theorem not_rebuilt : ¬Verifies [field "Host" "b.example"] [utf8 "Host"] ∧ ¬Verifies [] [SIGNATURE_AGENT] ∧
    ¬Verifies [field "X" " x"] [utf8 "X"] :=
  ⟨uncoverable_unverified _ List.mem_cons_self, uncoverable_unverified _ (List.mem_cons_of_mem _ List.mem_cons_self),
    uncoverable_unverified _ (List.mem_cons_of_mem _ (List.mem_cons_of_mem _ List.mem_cons_self))⟩

end CommonMeasure.Identity
