import CommonMeasure.Declarations.Rsl
import CommonMeasure.Declarations.Usage
import CommonMeasure.Json.Value

/-!
# What a content entry's licences say

Each licence of an entry is an offer.
-/

namespace CommonMeasure.Declarations

/-! ### Licences -/

structure RslAmount where
  currency : Text
  decimal : Text

structure RslPayment where
  kind : Option Text
  amount : Option RslAmount
  standard : Option Text
  custom : Option Text
  accepts : Option Text

def RslPayment.needs_settlement (payment : RslPayment) : Bool :=
  match payment.kind with
  | some kind => !(kind = "free".toList || kind = "attribution".toList)
  | none => payment.amount.isSome || payment.standard.isSome || payment.custom.isSome || payment.accepts.isSome

structure RslReporting where
  kind : Text
  profile : Text
  endpoint : Option Text
  config : Option Json.Value

structure RslLicence where
  permits_usage : Option (List Text)
  prohibits_usage : Option (List Text)
  payments : List RslPayment
  reporting : List RslReporting
  restricted : Bool

/-- A `<payment>` that needs settlement. -/
def RslLicence.unmet (licence : RslLicence) : Bool := licence.payments.any RslPayment.needs_settlement

def RslLicence.payment (licence : RslLicence) : Option RslPayment :=
  licence.payments.find? RslPayment.needs_settlement <|> licence.payments.head?

def Category.ALL : List Category := [.TrainAi, .AiInput, .AiIndex, .Search]

def Category.label : Category → Text
  | .TrainAi => "train-ai".toList
  | .AiInput => "ai-input".toList
  | .AiIndex => "ai-index".toList
  | .Search => "search".toList

def Category.from_rsl_token (token : Text) : List Category :=
  if token = "ai-train".toList then [.TrainAi]
  else if token = "ai-input".toList then [.AiInput]
  else if token = "ai-index".toList then [.AiIndex]
  else if token = "search".toList then [.Search]
  else if token = "ai-all".toList then [.TrainAi, .AiInput, .AiIndex]
  else if token = "all".toList then Category.ALL
  else []

/-- `all` ranks below a token that names an AI use or the category itself. -/
def token_specificity (tokens : List Text) (category : Category) : Option Nat :=
  ((tokens.filter fun token => (Category.from_rsl_token token).contains category).map fun token =>
    if token = "all".toList then 1 else 2).max?

inductive AiInputGrant where
  | ByName
  | Silent

def RslLicence.permits (licence : RslLicence) (category : Category) : Option Nat :=
  licence.permits_usage.bind (token_specificity · category)

def RslLicence.prohibits (licence : RslLicence) (category : Category) : Option Nat :=
  licence.prohibits_usage.bind (token_specificity · category)

def names_ai_input (licence : RslLicence) : Bool := (licence.permits .AiInput).isSome || (licence.prohibits .AiInput).isSome

def prohibits_ai_input (licence : RslLicence) : Bool :=
  match licence.prohibits .AiInput with
  | none => false
  | some prohibit => (licence.permits .AiInput).all fun permit => permit ≤ prohibit

def ai_input_grant (licence : RslLicence) (silent_counts : Bool) : Option AiInputGrant :=
  if licence.restricted then none
  else match licence.permits_usage with
    | some tokens => ((token_specificity tokens .AiInput).filter fun _ => !prohibits_ai_input licence).map fun _ => .ByName
    | none => if silent_counts then some .Silent else none

abbrev Offer := Nat × RslLicence × AiInputGrant

def offers (licences : List RslLicence) : List Offer :=
  let silent_counts := !licences.any names_ai_input
  licences.zipIdx.filterMap fun (licence, index) => (ai_input_grant licence silent_counts).map fun grant => (index,
    licence, grant)

def governing_offer (content : RslContent RslLicence) : Option Offer :=
  if content.licences.any prohibits_ai_input then none
  else (offers content.licences).argmin fun (index, licence, _) => toLex (licence.unmet, index)

inductive StatementSource where
  | ContentUsageHeader
  | RobotsContentUsage
  | RobotsContentSignal
  | RslLicence
  | PastedRsl
  | PastedContentUsage
  | PastedC2pa
deriving DecidableEq

structure Statement where
  source : StatementSource
  category : Category
  preference : Preference
  detail : Text

inductive Effective where
  | Allow
  | Disallow
  | Unknown
deriving DecidableEq

def combine (statements : List Statement) (category : Category) : Effective :=
  answer .Unknown (statements.filter fun statement => statement.category = category)
where
  answer : Effective → List Statement → Effective
    | kept, [] => kept
    | _, statement :: rest =>
      match statement.preference with
      | .Disallow => .Disallow
      | .Allow => answer .Allow rest

def weighed (category : Category) (licence : RslLicence) : Option Preference :=
  match licence.permits category, licence.prohibits category with
  | some permit, some prohibit =>
    if permit ≤ prohibit then some .Disallow else if licence.restricted then some .Disallow else some .Allow
  | some _, none => if licence.restricted then some .Disallow else some .Allow
  | none, some _ => some .Disallow
  | none, none =>
    if licence.permits_usage.isSome then some .Disallow
    else if category = .AiInput && licence.restricted && licence.unmet then some .Disallow
    else none

def places (kind : RslLicence → Bool) (licences : List RslLicence) : List Nat :=
  (licences.zipIdx.filter fun entry => kind entry.1).map Prod.snd

def numbered (indices : List Nat) : Text := ", ".toList.intercalate (indices.map fun index => (toString (index + 1)).toList)

variable (content : RslContent RslLicence) (licence_url : Text)

def offered (category : Category) (offer : Offer) : Statement where
  source := .RslLicence
  category
  preference := .Allow
  detail := match offer with
    | (_, _, .ByName) => licence_url ++ ": permits usage ".toList ++ category.label
    | (index, _, .Silent) => licence_url ++ ": licence ".toList ++ (toString (index + 1)).toList ++
        " lists no usage it permits, so covers usage ".toList ++ category.label

def stated (category : Category) : Option Statement :=
  match if category = .AiInput then governing_offer content else none with
  | some offer => some (offered licence_url category offer)
  | none =>
    let allowed := content.licences.any fun licence => weighed category licence = some .Allow
    let disallowed_by := places (fun licence => weighed category licence = some .Disallow) content.licences
    let prohibiting := if category = .AiInput then places prohibits_ai_input content.licences else []
    let permitting := (content.licences.zipIdx.filter fun (licence, index) =>
      !disallowed_by.contains index && (licence.permits category).isSome).map Prod.snd
    let statement (preference : Preference) (detail : Text) : Option Statement :=
      some { source := .RslLicence, category, preference, detail := licence_url ++ detail }
    if allowed && !prohibiting.isEmpty then
      statement .Disallow (": licence ".toList ++ numbered prohibiting ++ " prohibits usage ".toList ++ category.label ++
        ", which takes precedence over the permit of licence ".toList ++ numbered permitting)
    else if allowed then statement .Allow (": permits usage ".toList ++ category.label)
    else if !disallowed_by.isEmpty then
      statement .Disallow (": no licence permits usage ".toList ++ category.label ++ " (licence ".toList ++
        numbered disallowed_by ++ ")".toList)
    else none

structure LicenceTerms where
  statements : List Statement
  payment : Option RslPayment
  payments : List RslPayment
  offer : Option Nat
  restricted : List Nat
  reporting : List RslReporting
  server : Option Text

def reporting_demands (offer : Option RslLicence) : List RslReporting :=
  match offer with
  | some licence => licence.reporting
  | none => content.licences.flatMap (·.reporting)

/-- The licence whose payment is stated: the offer's, else the first restricted one that asks for settlement. -/
def payer : Option RslLicence :=
  match governing_offer content with
  | some (_, licence, _) => some licence
  | none => content.licences.find? fun licence => licence.restricted && licence.unmet

def licence_terms : LicenceTerms where
  statements := Category.ALL.filterMap (stated content licence_url)
  payment := (payer content).bind RslLicence.payment
  payments := match payer content with
    | some licence => if 1 < licence.payments.length then licence.payments else []
    | none => []
  offer := (governing_offer content).map fun offer => offer.1 + 1
  restricted := (places (·.restricted) content.licences).map (· + 1)
  reporting := reporting_demands content ((governing_offer content).map fun offer => offer.2.1)
  server := content.server

variable {content licence_url} {licence : RslLicence}

theorem weighed_prohibited (prohibited : prohibits_ai_input licence = true) : weighed .AiInput licence = some .Disallow := by
  unfold prohibits_ai_input at prohibited
  unfold weighed
  cases prohibit : licence.prohibits .AiInput with
  | none =>
    rw [prohibit] at prohibited
    cases prohibited
  | some prohibit_ =>
    rw [prohibit] at prohibited
    cases permit : licence.permits .AiInput with
    | none => rfl
    | some permit_ =>
      rw [permit] at prohibited
      have least : permit_ ≤ prohibit_ := of_decide_eq_true prohibited
      simp only [if_pos least]

theorem weighed_allows {category : Category} (allows : weighed category licence = some .Allow) :
    (licence.permits category).isSome = true ∧ licence.restricted = false := by
  unfold weighed at allows
  cases permit : licence.permits category with
  | some permit_ =>
    cases prohibit : licence.prohibits category with
    | some prohibit_ =>
      simp only [permit, prohibit] at allows
      split at allows
      · cases allows
      · split at allows
        · cases allows
        · rename_i open_
          exact ⟨rfl, Bool.eq_false_of_not_eq_true open_⟩
    | none =>
      simp only [permit, prohibit] at allows
      split at allows
      · cases allows
      · rename_i open_
        exact ⟨rfl, Bool.eq_false_of_not_eq_true open_⟩
  | none =>
    cases prohibit : licence.prohibits category with
    | some prohibit_ =>
      simp only [permit, prohibit] at allows
      cases allows
    | none =>
      simp only [permit, prohibit] at allows
      split at allows
      · cases allows
      · split at allows <;> cases allows

theorem granted_of_weighed (allows : weighed .AiInput licence = some .Allow) (silent_counts : Bool) :
    (ai_input_grant licence silent_counts).isSome = true := by
  have stands : prohibits_ai_input licence = false := by
    by_contra prohibited
    rw [weighed_prohibited (Bool.eq_true_of_not_eq_false prohibited)] at allows
    cases allows
  obtain ⟨permits, open_⟩ := weighed_allows allows
  obtain ⟨specificity, permit⟩ := Option.isSome_iff_exists.mp permits
  obtain ⟨tokens, lists, ranks⟩ := Option.bind_eq_some_iff.mp permit
  simp [ai_input_grant, open_, lists, ranks, stands]

theorem payment_unmet (licence : RslLicence) : licence.payment.any RslPayment.needs_settlement = licence.unmet := by
  unfold RslLicence.payment RslLicence.unmet
  cases found : licence.payments.find? RslPayment.needs_settlement with
  | some payment =>
    have needs := List.find?_some found
    have listed := List.mem_of_find?_eq_some found
    rw [List.any_eq_true.mpr ⟨payment, listed, needs⟩]
    exact needs
  | none =>
    have free := List.find?_eq_none.mp found
    have nothing : licence.payments.any RslPayment.needs_settlement = false := by
      rw [List.any_eq_false]
      exact free
    rw [nothing]
    cases payments : licence.payments with
    | nil => rfl
    | cons payment rest =>
      have first := free payment (payments ▸ List.mem_cons_self)
      simpa using first

def grants (licences : List RslLicence) (licence : RslLicence) : Bool :=
  (ai_input_grant licence !licences.any names_ai_input).isSome

theorem mem_offers {licences : List RslLicence} {index : Nat} {grant : AiInputGrant} :
    (index, licence, grant) ∈ offers licences ↔
      licences[index]? = some licence ∧ ai_input_grant licence (!licences.any names_ai_input) = some grant := by
  simp only [offers, List.mem_filterMap, Prod.exists, Option.map_eq_some_iff, Prod.mk.injEq, List.mem_zipIdx_iff_getElem?]
  constructor
  · rintro ⟨_, _, listed, _, granted, rfl, rfl, rfl⟩
    exact ⟨listed, granted⟩
  · rintro ⟨listed, granted⟩
    exact ⟨licence, index, listed, grant, granted, rfl, rfl, rfl⟩

theorem offers_of_grants {licences : List RslLicence} (listed : licence ∈ licences) (grants_ : grants licences licence = true) :
    ∃ index grant, (index, licence, grant) ∈ offers licences := by
  obtain ⟨index, bound, is⟩ := List.mem_iff_getElem.mp listed
  obtain ⟨grant, granted⟩ := Option.isSome_iff_exists.mp grants_
  exact ⟨index, grant, mem_offers.mpr ⟨by rw [List.getElem?_eq_getElem bound, is], granted⟩⟩

theorem governing_offer_isSome : (governing_offer content).isSome =
    (!content.licences.any prohibits_ai_input && content.licences.any (grants content.licences)) := by
  unfold governing_offer
  cases content.licences.any prohibits_ai_input with
  | true => rfl
  | false =>
    rw [if_neg Bool.false_ne_true, Bool.not_false, Bool.true_and, Bool.eq_iff_iff, List.any_eq_true]
    constructor
    · intro some_
      obtain ⟨⟨index, licence, grant⟩, chosen⟩ := Option.isSome_iff_exists.mp some_
      obtain ⟨listed, granted⟩ := mem_offers.mp (List.argmin_mem chosen)
      exact ⟨licence, List.mem_of_getElem? listed, by rw [grants, granted]; rfl⟩
    · rintro ⟨licence, listed, grants_⟩
      obtain ⟨index, grant, offered_⟩ := offers_of_grants listed grants_
      rw [Option.isSome_iff_ne_none]
      intro none_
      rw [List.argmin_eq_none] at none_
      rw [none_] at offered_
      cases offered_

theorem governing_offer_unmet {index : Nat} {grant : AiInputGrant}
    (chosen : governing_offer content = some (index, licence, grant)) :
    licence.unmet = !content.licences.any fun other => grants content.licences other && !other.unmet := by
  unfold governing_offer at chosen
  split at chosen
  · cases chosen
  · obtain ⟨listed, granted⟩ := mem_offers.mp (List.argmin_mem chosen)
    cases unmet : licence.unmet with
    | false =>
      have free : (content.licences.any fun other => grants content.licences other && !other.unmet) = true := by
        rw [List.any_eq_true]
        refine ⟨licence, List.mem_of_getElem? listed, ?_⟩
        rw [grants, granted, unmet]
        rfl
      rw [free]
      rfl
    | true =>
      have none_ : (content.licences.any fun other => grants content.licences other && !other.unmet) = false := by
        rw [List.any_eq_false]
        intro other among free
        obtain ⟨grants_, met⟩ := Bool.and_eq_true_iff.mp free
        obtain ⟨place, other_grant, offered_⟩ := offers_of_grants among grants_
        have least := List.le_of_mem_argmin offered_ chosen
        have settled : other.unmet = false := by simpa using met
        dsimp only at least
        rw [unmet, settled] at least
        rcases Prod.Lex.toLex_le_toLex.mp least with less | ⟨same, _⟩
        · exact absurd less (by decide : ¬(true < false))
        · cases same
      rw [none_]
      rfl

/-! ### The statement for a category -/

theorem places_isEmpty {kind : RslLicence → Bool} (licences : List RslLicence) :
    (places kind licences).isEmpty = !licences.any kind := by
  rw [Bool.eq_iff_iff, List.isEmpty_iff, Bool.not_eq_true', List.any_eq_false, places, List.map_eq_nil_iff,
    List.filter_eq_nil_iff]
  constructor
  · intro none_ licence listed holds
    obtain ⟨index, bound, is⟩ := List.mem_iff_getElem.mp listed
    apply none_ (licence, index) _ holds
    rw [List.mem_zipIdx_iff_getElem?, List.getElem?_eq_getElem bound, is]
  · rintro none_ ⟨licence, index⟩ listed
    rw [List.mem_zipIdx_iff_getElem?] at listed
    exact none_ licence (List.mem_of_getElem? listed)

theorem stated_preference (category : Category) : (stated content licence_url category).map Statement.preference =
    if category = .AiInput && (governing_offer content).isSome then some .Allow
    else if content.licences.any fun licence => weighed category licence = some .Allow then
      if category = .AiInput && content.licences.any prohibits_ai_input then some .Disallow else some .Allow
    else if content.licences.any fun licence => weighed category licence = some .Disallow then some .Disallow
    else none := by
  unfold stated
  simp only [places_isEmpty]
  by_cases input : category = .AiInput
  · subst input
    cases governing_offer content with
    | some offer => rfl
    | none =>
      simp only [if_true, places_isEmpty, Option.isSome_none, decide_true, Bool.true_and, Bool.not_not,
        Bool.false_eq_true, if_false]
      cases (content.licences.any fun licence => weighed .AiInput licence = some .Allow) <;>
        cases content.licences.any prohibits_ai_input <;>
          cases (content.licences.any fun licence => weighed .AiInput licence = some .Disallow) <;> rfl
  · simp only [input, decide_false, Bool.false_and, List.isEmpty_nil, Bool.not_true, Bool.and_false,
      Bool.false_eq_true, if_false, Bool.not_not]
    cases (content.licences.any fun licence => weighed category licence = some .Allow) <;>
      cases (content.licences.any fun licence => weighed category licence = some .Disallow) <;> rfl

theorem stated_category {category : Category} {statement : Statement}
    (is : stated content licence_url category = some statement) :
    statement.category = category := by
  unfold stated at is
  split at is
  · obtain rfl := Option.some.inj is
    rfl
  · dsimp only at is
    repeat' split at is
    all_goals first
      | cases is; done
      | (obtain rfl := Option.some.inj is; rfl)

theorem statements_of (category : Category) :
    ((licence_terms content licence_url).statements.filter fun statement => statement.category = category) =
      (stated content licence_url category).toList := by
  have one (other : Category) : (stated content licence_url other).toList.filter (fun statement => statement.category = category) =
      if other = category then (stated content licence_url category).toList else [] := by
    cases found : stated content licence_url other with
    | none =>
      split
      · rename_i same
        rw [← same, found]
        rfl
      · rfl
    | some statement =>
      have is := stated_category found
      split
      · rename_i same
        rw [← same, found]
        simp [is]
      · rename_i apart
        simp [is, apart]
  have all : (licence_terms content licence_url).statements = Category.ALL.flatMap fun other =>
      (stated content licence_url other).toList := by
    show Category.ALL.filterMap (stated content licence_url) = _
    rw [List.filterMap_eq_flatMap_toList]
  rw [all, List.filter_flatMap]
  simp only [one, Category.ALL, List.flatMap_cons, List.flatMap_nil]
  cases category <;> simp

def Effective.of : Option Preference → Effective
  | some .Allow => .Allow
  | some .Disallow => .Disallow
  | none => .Unknown

theorem combine_terms (category : Category) : combine (licence_terms content licence_url).statements category =
    Effective.of ((stated content licence_url category).map Statement.preference) := by
  rw [combine, statements_of]
  cases stated content licence_url category with
  | none => rfl
  | some statement =>
    rw [Option.map_some, Option.toList_some, combine.answer]
    cases statement.preference <;> rfl

theorem stated_prohibited (prohibited : content.licences.any prohibits_ai_input = true) :
    (stated content licence_url .AiInput).map Statement.preference = some .Disallow := by
  have disallowed : (content.licences.any fun licence => weighed .AiInput licence = some .Disallow) = true := by
    obtain ⟨licence, listed, prohibits⟩ := List.any_eq_true.mp prohibited
    exact List.any_eq_true.mpr ⟨licence, listed, decide_eq_true (weighed_prohibited prohibits)⟩
  rw [stated_preference, governing_offer_isSome, prohibited, disallowed]
  cases (content.licences.any fun licence => weighed .AiInput licence = some .Allow) <;> rfl

theorem stated_allows : (stated content licence_url .AiInput).map Statement.preference = some .Allow ↔
    (governing_offer content).isSome = true := by
  by_cases prohibited : content.licences.any prohibits_ai_input = true
  · rw [stated_prohibited prohibited, governing_offer_isSome, prohibited]
    simp
  · rw [stated_preference]
    cases offered_ : (governing_offer content).isSome with
    | true => simp
    | false =>
      have none_ : (content.licences.any fun licence => weighed .AiInput licence = some .Allow) = false := by
        rw [List.any_eq_false]
        intro licence listed allows
        rw [governing_offer_isSome, Bool.eq_false_of_not_eq_true prohibited, Bool.not_false, Bool.true_and, List.any_eq_false]
          at offered_
        exact offered_ licence listed (granted_of_weighed (of_decide_eq_true allows) _)
      rw [none_]
      simp

structure LicenceTerms.Agree (a b : LicenceTerms) : Prop where
  effective : ∀ category, combine a.statements category = combine b.statements category
  offer : a.offer.isSome = b.offer.isSome
  settlement : a.payment.any RslPayment.needs_settlement = b.payment.any RslPayment.needs_settlement
  server : a.server.isSome = b.server.isSome

structure RslContent.Alike {Licence : Type} (a b : RslContent Licence) : Prop where
  licences : a.licences.Perm b.licences
  server : a.server.isSome = b.server.isSome

theorem grants_perm {licences others : List RslLicence} (perm : licences.Perm others) : grants licences = grants others := by
  funext licence
  rw [grants, grants, perm.any_eq]

theorem governing_offer_alike {a b : RslContent RslLicence} (alike : a.Alike b) :
    (governing_offer a).isSome = (governing_offer b).isSome := by
  rw [governing_offer_isSome, governing_offer_isSome, alike.licences.any_eq, alike.licences.any_eq, grants_perm alike.licences]

theorem stated_alike {a b : RslContent RslLicence} (alike : a.Alike b) (category : Category) :
    (stated a licence_url category).map Statement.preference = (stated b licence_url category).map Statement.preference := by
  rw [stated_preference, stated_preference, governing_offer_alike alike, alike.licences.any_eq, alike.licences.any_eq,
    alike.licences.any_eq]

theorem payer_unmet (content : RslContent RslLicence) : (payer content).any RslLicence.unmet =
    if (governing_offer content).isSome then
      !content.licences.any fun other => grants content.licences other && !other.unmet
    else content.licences.any fun licence => licence.restricted && licence.unmet := by
  unfold payer
  cases chosen : governing_offer content with
  | some offer => exact governing_offer_unmet chosen
  | none =>
    cases found : content.licences.find? fun licence => licence.restricted && licence.unmet with
    | some licence =>
      have holds := List.find?_some found
      have listed := List.mem_of_find?_eq_some found
      have any_ : (content.licences.any fun licence => licence.restricted && licence.unmet) = true :=
        List.any_eq_true.mpr ⟨licence, listed, holds⟩
      rw [Option.isSome_none, if_neg Bool.false_ne_true, any_]
      exact (Bool.and_eq_true_iff.mp holds).2
    | none =>
      have none_ : (content.licences.any fun licence => licence.restricted && licence.unmet) = false := by
        rw [List.any_eq_false]
        exact List.find?_eq_none.mp found
      rw [Option.isSome_none, if_neg Bool.false_ne_true, none_]
      rfl

theorem payment_payer (content : RslContent RslLicence) (licence_url : Text) :
    (licence_terms content licence_url).payment.any RslPayment.needs_settlement = (payer content).any RslLicence.unmet := by
  show ((payer content).bind RslLicence.payment).any RslPayment.needs_settlement = _
  cases payer content with
  | none => rfl
  | some licence => exact payment_unmet licence

theorem licence_terms_alike {a b : RslContent RslLicence} (alike : a.Alike b) (licence_url : Text) :
    (licence_terms a licence_url).Agree (licence_terms b licence_url) where
  effective category := by rw [combine_terms, combine_terms, stated_alike alike]
  offer := by
    show ((governing_offer a).map _).isSome = ((governing_offer b).map _).isSome
    rw [Option.isSome_map, Option.isSome_map, governing_offer_alike alike]
  settlement := by
    rw [payment_payer, payment_payer, payer_unmet, payer_unmet, governing_offer_alike alike, grants_perm alike.licences,
      alike.licences.any_eq, alike.licences.any_eq]
  server := alike.server

end CommonMeasure.Declarations
