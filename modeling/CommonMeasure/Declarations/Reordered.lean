import CommonMeasure.Declarations.Removed
import CommonMeasure.Declarations.Terms

namespace CommonMeasure.Declarations

variable {Licence Url : Type}

structure RslContent.Reordered (a b : RslContent Licence) : Prop where
  url : a.url = b.url
  server : a.server = b.server
  licences : a.licences.Perm b.licences

def RslDocument.Reordered (document other : RslDocument Licence) : Prop :=
  Shuffles RslContent.Reordered document.contents other.contents

/-! ### What a selection counts -/

theorem max_comm (a b : WrittenOrder) : a.max b = b.max a := by
  obtain ⟨p, m⟩ := a
  obtain ⟨q, n⟩ := b
  unfold WrittenOrder.max
  cases p <;> cases q <;> simp <;> grind

theorem max_assoc (a b c : WrittenOrder) : (a.max b).max c = a.max (b.max c) := by
  obtain ⟨p, m⟩ := a
  obtain ⟨q, n⟩ := b
  obtain ⟨r, k⟩ := c
  unfold WrittenOrder.max
  cases p <;> cases q <;> cases r <;> simp <;> grind

theorem maximum_perm {orders others : List WrittenOrder} (perm : orders.Perm others) : maximum orders = maximum others := by
  unfold maximum
  apply perm.foldl_eq'
  intro a _ b _ first
  cases first with
  | none => exact congrArg some (max_comm a b)
  | some kept => exact congrArg some (by rw [Option.elim, Option.elim, Option.elim, Option.elim, max_assoc, max_assoc, max_comm a b])

theorem total_perm {counts others : List Nat} (perm : counts.Perm others) : total counts = total others := by
  unfold total
  apply perm.foldl_eq'
  intro a _ b _ sum
  unfold saturated
  omega

variable {scoped_ others : List (ScopedEntry Licence)}

theorem distinct_perm (perm : (scoped_.map (·.form)).Perm (others.map (·.form))) :
    (distinct scoped_).Perm (distinct others) := by
  unfold distinct
  apply List.Perm.map
  apply List.Perm.dedup
  exact (List.mergeSort_perm _ _).trans (perm.trans (List.mergeSort_perm _ _).symm)

theorem selection_work_perm (perm : (scoped_.map (·.form)).Perm (others.map (·.form))) :
    selection_work scoped_ (distinct scoped_) = selection_work others (distinct others) := by
  have scopes := distinct_perm perm
  have read := total_perm (perm.map byteLen)
  rw [List.map_map, List.map_map] at read
  have same : total (scoped_.map fun entry => byteLen entry.form) = total (others.map fun entry => byteLen entry.form) := read
  unfold selection_work
  rw [same, scopes.length_eq, total_perm (scopes.map fun scope => byteLen scope.general + byteLen scope.form)]

inductive Likewise {α β : Type} (r : α → β → Prop) : Except SelectionUnread α → Except SelectionUnread β → Prop
  | error (unread : SelectionUnread) : Likewise r (.error unread) (.error unread)
  | ok {a : α} {b : β} : r a b → Likewise r (.ok a) (.ok b)

theorem governing_forms_perm (perm : (scoped_.map (·.form)).Perm (others.map (·.form))) :
    Likewise List.Perm (governing_forms scoped_) (governing_forms others) := by
  have scopes := distinct_perm perm
  have governing : ((distinct scoped_).filter fun outer => !(distinct scoped_).any fun inner => strictly_within inner outer).Perm
      ((distinct others).filter fun outer => !(distinct others).any fun inner => strictly_within inner outer) := by
    have same (outer : Scope) : ((distinct scoped_).any fun inner => strictly_within inner outer) =
        (distinct others).any fun inner => strictly_within inner outer := scopes.any_eq
    simp only [same]
    exact scopes.filter _
  unfold governing_forms
  dsimp only
  rw [selection_work_perm perm]
  split
  · exact .error _
  · rw [governing.isEmpty_eq]
    split
    · exact .error _
    · exact .ok (governing.map _)

structure ScopedEntry.Reordered (a b : ScopedEntry Licence) : Prop where
  content : a.content.Reordered b.content
  form : a.form = b.form
  order : a.order = b.order

inductive Matching.Reordered : Matching Licence → Matching Licence → Prop
  | scoped_ {a b : ScopedEntry Licence} : a.Reordered b → Reordered (.scoped_ a) (.scoped_ b)
  | unscoped {a b : RslContent Licence} (order : WrittenOrder) : a.Reordered b →
    Reordered (.unscoped a order) (.unscoped b order)

variable {u : UrlCrate Url} {target page_url : Text} {page : Option Text}

theorem matching_reordered {a b : RslContent Licence} (reordered : a.Reordered b) :
    Option.Rel Matching.Reordered (matching u target page page_url a) (matching u target page page_url b) := by
  unfold matching
  rw [← reordered.url]
  dsimp only
  split
  · exact .some (.unscoped _ reordered)
  · split
    · exact .some (.scoped_ ⟨reordered, rfl, rfl⟩)
    · exact .none
  · split
    · exact .some (.scoped_ ⟨reordered, rfl, rfl⟩)
    · exact .some (.unscoped _ reordered)
    · exact .none

section

variable {document other : RslDocument Licence}

theorem scoped_reordered (reordered : document.Reordered other) :
    Shuffles ScopedEntry.Reordered (document.scoped_ u target page page_url) (other.scoped_ u target page page_url) := by
  apply Shuffles.filterMap _ (Shuffles.filterMap (fun a b => matching_reordered) reordered)
  rintro _ _ (entry | _)
  · exact .some entry
  · exact .none

theorem unscoped_reordered (reordered : document.Reordered other) :
    Shuffles (fun a b : RslContent Licence × WrittenOrder => a.1.Reordered b.1 ∧ a.2 = b.2)
      (document.unscoped u target page page_url) (other.unscoped u target page page_url) := by
  apply Shuffles.filterMap _ (Shuffles.filterMap (fun a b => matching_reordered) reordered)
  rintro _ _ (_ | ⟨order, content⟩)
  · exact .none
  · exact .some ⟨content, rfl⟩

theorem forms_perm (shuffles : Shuffles ScopedEntry.Reordered scoped_ others) :
    (scoped_.map (·.form)).Perm (others.map (·.form)) := (shuffles.map fun _ _ same => same.form).perm

theorem first_absolute_reordered (shuffles : Shuffles ScopedEntry.Reordered scoped_ others) (form : Text) :
    RslDocument.first_absolute scoped_ form = RslDocument.first_absolute others form := by
  unfold RslDocument.first_absolute
  apply maximum_perm
  apply Shuffles.perm
  apply Shuffles.filterMap _ (Shuffles.filter _ shuffles)
  · intro a b same
    rw [same.order]
    cases b.order with
    | none => exact .none
    | some order => exact .some rfl
  · intro a b same
    rw [same.form]

theorem governs_reordered (shuffles : Shuffles ScopedEntry.Reordered scoped_ others) {governing governing_ : List Text}
    (perm : governing.Perm governing_) {a b : ScopedEntry Licence} (same : a.Reordered b) :
    RslDocument.governs scoped_ governing a = RslDocument.governs others governing_ b := by
  unfold RslDocument.governs
  rw [same.form, same.order, perm.contains_eq]
  simp only [first_absolute_reordered shuffles]

theorem selected_reordered (reordered : document.Reordered other) :
    Likewise (Option.Rel (Shuffles RslContent.Reordered)) (document.selected u target page page_url)
      (other.selected u target page page_url) := by
  have narrow := @scoped_reordered _ _ u target page_url page _ _ reordered
  have open_ := @unscoped_reordered _ _ u target page_url page _ _ reordered
  unfold RslDocument.selected
  have empty : (document.scoped_ u target page page_url).isEmpty = (other.scoped_ u target page page_url).isEmpty := by
    rw [Bool.eq_iff_iff, List.isEmpty_iff, List.isEmpty_iff, ← List.length_eq_zero_iff, narrow.length, List.length_eq_zero_iff]
  have orders : ((document.unscoped u target page page_url).map (·.2)).Perm ((other.unscoped u target page page_url).map (·.2)) :=
    (open_.map fun _ _ same => same.2).perm
  dsimp only
  rw [empty, maximum_perm orders]
  split
  · split
    · exact .ok .none
    · exact .ok (.some ((open_.filter fun a b same => by rw [same.2]).map fun _ _ same => same.1))
  · have governed := governing_forms_perm (forms_perm narrow)
    generalize governing_forms (document.scoped_ u target page page_url) = first at governed ⊢
    generalize governing_forms (other.scoped_ u target page page_url) = second at governed ⊢
    cases governed with
    | error unread => exact .error unread
    | ok perm =>
      exact .ok (.some ((narrow.filter fun a b same => governs_reordered narrow perm same).map fun _ _ same => same.content))

theorem combined_alike (rest : List (RslContent Licence)) (first : RslContent Licence) :
    (rest.foldl (fun combined content =>
        { combined with server := combined.server <|> content.server, licences := combined.licences ++
          content.licences }) first).licences =
      (first :: rest).flatMap (·.licences) ∧
    (rest.foldl (fun combined content =>
        { combined with server := combined.server <|> content.server, licences := combined.licences ++ content.licences })
      first).server.isSome = (first :: rest).any (·.server.isSome) := by
  induction rest generalizing first with
  | nil => simp
  | cons next rest ih =>
    obtain ⟨licences, server⟩ := ih { first with server := first.server <|> next.server, licences := first.licences ++
      next.licences }
    constructor
    · rw [List.foldl_cons, licences]
      simp
    · rw [List.foldl_cons, server]
      simp [Bool.or_assoc]

theorem content_for_reading_reordered (reordered : document.Reordered other) :
    Likewise (Option.Rel RslContent.Alike) (document.content_for_reading u target page page_url)
      (other.content_for_reading u target page page_url) := by
  have chosen := @selected_reordered _ _ u target page_url page _ _ reordered
  unfold RslDocument.content_for_reading
  generalize document.selected u target page page_url = one at chosen ⊢
  generalize other.selected u target page page_url = two at chosen ⊢
  cases chosen with
  | error unread => exact .error unread
  | ok same =>
    cases same with
    | none => exact .ok .none
    | @some l m shuffles =>
      have length := shuffles.length
      match l, m with
      | [], [] => exact .error .none_governs
      | first :: rest, start :: more =>
        refine .ok (.some ⟨?_, ?_⟩)
        · rw [(combined_alike rest first).1, (combined_alike more start).1]
          exact shuffles.flatMap fun _ _ same => same.licences
        · rw [(combined_alike rest first).2, (combined_alike more start).2]
          exact shuffles.any fun _ _ same => by rw [same.server]

theorem first_selected_reordered (reordered : document.Reordered other) (pages : Option (List Text)) (targets : List Text)
    (index : Nat) : Likewise (Option.Rel RslContent.Alike) (document.first_selected u page_url pages index targets)
      (other.first_selected u page_url pages index targets) := by
  induction targets generalizing index with
  | nil => exact .ok .none
  | cons target targets ih =>
    have reading := @content_for_reading_reordered _ _ u target page_url (pages.bind (·[index]?)) _ _ reordered
    rw [RslDocument.first_selected, RslDocument.first_selected]
    generalize document.content_for_reading u target (pages.bind (·[index]?)) page_url = one at reading ⊢
    generalize other.content_for_reading u target (pages.bind (·[index]?)) page_url = two at reading ⊢
    cases reading with
    | error unread => exact .error unread
    | ok same =>
      cases same with
      | none => exact ih (index + 1)
      | some alike => exact .ok (.some alike)

theorem content_for_reordered (reordered : document.Reordered other) :
    Likewise (Option.Rel RslContent.Alike) (document.content_for u page_url) (other.content_for u page_url) :=
  first_selected_reordered reordered _ _ 0

end

def terms_for (u : UrlCrate Url) (document : RslDocument RslLicence) (page_url licence_url : Text) :
    Except SelectionUnread (Option LicenceTerms) :=
  (document.content_for u page_url).map (Option.map fun content => licence_terms content licence_url)

theorem terms_for_reordered {document other : RslDocument RslLicence} (reordered : document.Reordered other)
    (licence_url : Text) :
    Likewise (Option.Rel LicenceTerms.Agree) (terms_for u document page_url licence_url) (terms_for u other page_url licence_url) := by
  have selected := @content_for_reordered _ _ u page_url _ _ reordered
  unfold terms_for
  generalize document.content_for u page_url = one at selected ⊢
  generalize other.content_for u page_url = two at selected ⊢
  cases selected with
  | error unread => exact .error unread
  | ok same =>
    cases same with
    | none => exact .ok .none
    | some alike => exact .ok (.some (licence_terms_alike alike licence_url))

/-- The order of a document's entries and of their licences decides nothing that is asked of them. A prohibition stands
whatever its siblings permit, and AI input is allowed exactly by an offer, on its payment. -/
theorem licences_in_any_order (u : UrlCrate Url) :
    (∀ document other : RslDocument RslLicence, document.Reordered other → ∀ page_url licence_url,
      Likewise (Option.Rel LicenceTerms.Agree) (terms_for u document page_url licence_url) (terms_for u other page_url licence_url)) ∧
    ∀ content licence_url,
      (∀ licence ∈ content.licences, prohibits_ai_input licence = true → ∃ statement, statement.preference = .Disallow ∧
        ((licence_terms content licence_url).statements.filter fun other => other.category = .AiInput) = [statement]) ∧
      ((∃ statement ∈ (licence_terms content licence_url).statements, statement.category = .AiInput ∧
        statement.preference = .Allow) ↔ (governing_offer content).isSome = true) ∧
      ∀ index licence grant, governing_offer content = some (index, licence, grant) →
        (licence_terms content licence_url).payment = licence.payment ∧
          (licence_terms content licence_url).offer = some (index + 1) := by
  refine ⟨fun document other reordered page_url licence_url => terms_for_reordered reordered licence_url, ?_⟩
  intro content licence_url
  refine ⟨?_, ?_, ?_⟩
  · intro licence listed prohibits
    have prohibited : content.licences.any prohibits_ai_input = true := List.any_eq_true.mpr ⟨licence, listed, prohibits⟩
    obtain ⟨statement, is, disallows⟩ := Option.map_eq_some_iff.mp (@stated_prohibited content licence_url prohibited)
    exact ⟨statement, disallows, by rw [statements_of, is, Option.toList_some]⟩
  · have one : (∃ statement ∈ (licence_terms content licence_url).statements, statement.category = .AiInput ∧
        statement.preference = .Allow) ↔
        ∃ statement, stated content licence_url .AiInput = some statement ∧ statement.preference = .Allow := by
      have listed (statement : Statement) : statement ∈ (licence_terms content licence_url).statements ∧
          statement.category = .AiInput ↔ stated content licence_url .AiInput = some statement := by
        have member : statement ∈ (licence_terms content licence_url).statements.filter (fun other => other.category = .AiInput) ↔
            statement ∈ (stated content licence_url .AiInput).toList := by rw [statements_of]
        simpa using member
      constructor
      · rintro ⟨statement, inside, input, allows⟩
        exact ⟨statement, (listed statement).mp ⟨inside, input⟩, allows⟩
      · rintro ⟨statement, is, allows⟩
        obtain ⟨inside, input⟩ := (listed statement).mpr is
        exact ⟨statement, inside, input, allows⟩
    rw [one, ← @stated_allows content licence_url, Option.map_eq_some_iff]
  · intro index licence grant chosen
    have pays : payer content = some licence := by
      unfold payer
      rw [chosen]
    constructor
    · show (payer content).bind RslLicence.payment = _
      rw [pays]
      rfl
    · show (governing_offer content).map _ = _
      rw [chosen]
      rfl

def freeUse : RslLicence := ⟨some ["ai-input".toList], none, [⟨some "free".toList, none, none, none, none⟩], [], false⟩

def pricedUse : RslLicence :=
  ⟨some ["ai-all".toList], none, [⟨some "crawl".toList, some ⟨"USD".toList, "0.01".toList⟩, none, none, none⟩], [], false⟩

def noUse : RslLicence := ⟨none, some ["ai-input".toList], [], [], false⟩

def wholeSite (licences : List RslLicence) : RslContent RslLicence := ⟨"/".toList, none, licences⟩

theorem licences_in_any_order_mixed :
    Likewise (Option.Rel LicenceTerms.Agree)
      (terms_for pathsOnly ⟨[wholeSite [freeUse, pricedUse], wholeSite [noUse]]⟩ "/page".toList "/licence".toList)
      (terms_for pathsOnly ⟨[wholeSite [noUse], wholeSite [pricedUse, freeUse]]⟩ "/page".toList "/licence".toList) ∧
    (∃ statement, statement.preference = .Disallow ∧
      ((licence_terms (wholeSite [freeUse, noUse]) "/licence".toList).statements.filter fun other => other.category = .AiInput) =
        [statement]) ∧
    (licence_terms (wholeSite [pricedUse, freeUse]) "/licence".toList).payment = freeUse.payment ∧
      (licence_terms (wholeSite [pricedUse, freeUse]) "/licence".toList).offer = some 2 := by
  obtain ⟨ordered, answered⟩ := licences_in_any_order pathsOnly
  refine ⟨ordered _ _ ?_ _ _, (answered _ _).1 noUse (by simp [wholeSite]) (by decide),
    (answered _ _).2.2 1 freeUse .ByName rfl⟩
  refine ⟨[wholeSite [noUse], wholeSite [freeUse, pricedUse]], List.Perm.swap _ _ _, ?_⟩
  exact .cons ⟨rfl, rfl, List.Perm.refl _⟩ (.cons ⟨rfl, rfl, List.Perm.swap _ _ _⟩ .nil)

end CommonMeasure.Declarations
