import CommonMeasure.Declarations.Forms

/-!
# The governing entry of a licence document

Of the entries that match a page the narrowest govern.
-/

namespace CommonMeasure.Declarations

variable {Licence Url : Type}

structure RslContent (Licence : Type) where
  url : Text
  server : Option Text
  licences : List Licence

structure RslDocument (Licence : Type) where
  contents : List (RslContent Licence)

inductive SelectionUnread where
  | over_budget
  | none_governs
deriving DecidableEq

def ANY_RUN : Char := ' '

/-! ### Scopes -/

structure Scope where
  form : Text
  general : Text

def Scope.new (form : Text) : Scope :=
  let replaced (literal : Text) : Text := literal.map fun c => if c = '*' then ANY_RUN else c
  match strip_suffix '$' form with
  | some literal => { form, general := replaced literal }
  | none => { form, general := replaced form ++ [ANY_RUN] }

def Scope.within (scope outer : Scope) : Bool := matches_form outer.form scope.general

theorem general_new (form : Text) : (Scope.new form).general = (glob form).general ANY_RUN := by
  have replaced (literal : Text) : (literal.map fun c => if c = '*' then ANY_RUN else c) =
      Glob.general ANY_RUN (literal.map fun c => if c = '*' then none else some c) := by
    rw [Glob.general, List.map_map]
    apply List.map_congr_left
    intro c _
    by_cases star : c = '*' <;> simp [star]
  unfold Scope.new glob
  cases strip_suffix '$' form with
  | some literal => exact replaced literal
  | none =>
    show (form.map fun c => if c = '*' then ANY_RUN else c) ++ [ANY_RUN] = _
    rw [replaced form, Glob.general, Glob.general]
    simp

theorem form_new (form : Text) : (Scope.new form).form = form := by
  unfold Scope.new
  split <;> rfl

theorem within_eq {inner outer : Text} :
    (Scope.new inner).within (Scope.new outer) = true ↔ Fills (glob outer) ((glob inner).general ANY_RUN) := by
  rw [Scope.within, matches_form_iff, form_new, general_new]

theorem glob_plain {form : Text} (plain : ANY_RUN ∉ form) : some ANY_RUN ∉ glob form := by
  have items {text : Text} (apart : ANY_RUN ∉ text) : some ANY_RUN ∉ text.map fun c => if c = '*' then none else some c := by
    intro member
    obtain ⟨c, inside, same⟩ := List.mem_map.mp member
    split at same
    · cases same
    · exact apart (Option.some.inj same ▸ inside)
  unfold glob strip_suffix
  split
  · rename_i literal ends
    split at ends
    · obtain rfl := Option.some.inj ends
      exact items fun member => plain (List.mem_of_mem_dropLast member)
    · cases ends
  · simpa using items plain

theorem within_iff {inner outer : Text} (plain : ANY_RUN ∉ outer) :
    (Scope.new inner).within (Scope.new outer) = true ↔
      ∀ target, matches_form inner target = true → matches_form outer target = true := by
  simp only [within_eq, matches_form_iff]
  exact fills_general_iff (glob_plain plain)

theorem within_refl (form : Text) : (Scope.new form).within (Scope.new form) = true :=
  within_eq.mpr (fills_general ANY_RUN (glob form))

theorem within_trans {inner middle outer : Text} (plain : ANY_RUN ∉ outer)
    (first : (Scope.new inner).within (Scope.new middle) = true) (second : (Scope.new middle).within (Scope.new outer) = true) :
    (Scope.new inner).within (Scope.new outer) = true :=
  within_eq.mpr ((within_eq.mp second).sound (glob_plain plain) (within_eq.mp first))

abbrev WrittenOrder := Bool × Nat

structure ScopedEntry (Licence : Type) where
  content : RslContent Licence
  form : Text
  order : Option WrittenOrder

def SELECTION_BUDGET : Nat := 64000000

def TEST_WORK : Nat := 64

/-- A `u64`, saturated. -/
def saturated (n : Nat) : Nat := min n (2 ^ 64 - 1)

def total (counts : List Nat) : Nat := counts.foldl (fun sum count => saturated (sum + count)) 0

def selection_work (scoped_ : List (ScopedEntry Licence)) (scopes : List Scope) : Nat :=
  let read := total (scoped_.map fun entry => byteLen entry.form)
  let others := scopes.length - 1
  let compared := total (scopes.map fun scope => byteLen scope.general + byteLen scope.form)
  let tests := saturated (scopes.length * others)
  saturated (saturated (read + saturated (others * compared)) + saturated (tests * TEST_WORK))

def distinct (scoped_ : List (ScopedEntry Licence)) : List Scope :=
  ((scoped_.map (·.form)).mergeSort (fun a b => decide (a ≤ b))).dedup.map Scope.new

def strictly_within (inner outer : Scope) : Bool :=
  (inner.form = outer.form || inner.within outer) && !(inner.form = outer.form || outer.within inner)

def governing_forms (scoped_ : List (ScopedEntry Licence)) : Except SelectionUnread (List Text) :=
  let scopes := distinct scoped_
  if SELECTION_BUDGET < selection_work scoped_ scopes then .error .over_budget
  else
    let governing := scopes.filter fun outer => !scopes.any fun inner => strictly_within inner outer
    if governing.isEmpty then .error .none_governs else .ok (governing.map (·.form))

def WrittenOrder.max (a b : WrittenOrder) : WrittenOrder :=
  if a.1 = b.1 then (if b.2 < a.2 then a else b) else if a.1 then a else b

def maximum (orders : List WrittenOrder) : Option WrittenOrder :=
  orders.foldl (fun first order => some (first.elim order (WrittenOrder.max · order))) none

variable (u : UrlCrate Url)

def absolute_scope (pattern : Text) (page : Option Text) (page_url : Text) : Option (Option Text) :=
  match u.parse pattern with
  | some scope =>
    let scope := matching_url u scope
    let within := match page with
      | some page => scope.isPrefixOf page
      | none => pattern.isPrefixOf page_url
    if within then some (some (matching_target (request_target u scope))) else none
  | none => if pattern.isPrefixOf page_url then some none else none

/-- A matching entry: one with a scope the containment tests read, or one with its order among those without. -/
inductive Matching (Licence : Type) where
  | scoped_ (entry : ScopedEntry Licence)
  | unscoped (content : RslContent Licence) (order : WrittenOrder)

def Matching.entry : Matching Licence → Option (ScopedEntry Licence)
  | .scoped_ entry => some entry
  | .unscoped _ _ => none

def Matching.rest : Matching Licence → Option (RslContent Licence × WrittenOrder)
  | .scoped_ _ => none
  | .unscoped content order => some (content, order)

def matching (target : Text) (page : Option Text) (page_url : Text) (content : RslContent Licence) :
    Option (Matching Licence) :=
  let pattern := content.url
  match pattern with
  | [] => some (.unscoped content (false, 0))
  | '/' :: _ =>
    let form := matching_pattern pattern
    if matches_form form target then some (.scoped_ { content, form, order := none }) else none
  | _ =>
    match absolute_scope u pattern page page_url with
    | some (some form) => some (.scoped_ { content, form, order := some (pattern.isPrefixOf page_url, byteLen pattern) })
    | some none => some (.unscoped content (true, byteLen pattern))
    | none => none

namespace RslDocument

variable (document : RslDocument Licence) (target : Text) (page : Option Text) (page_url : Text)

def scoped_ : List (ScopedEntry Licence) :=
  (document.contents.filterMap (matching u target page page_url)).filterMap Matching.entry

def unscoped : List (RslContent Licence × WrittenOrder) :=
  (document.contents.filterMap (matching u target page page_url)).filterMap Matching.rest

def first_absolute (scoped_ : List (ScopedEntry Licence)) (form : Text) : Option WrittenOrder :=
  maximum ((scoped_.filter (·.form = form)).filterMap (·.order))

def governs (scoped_ : List (ScopedEntry Licence)) (governing : List Text) (entry : ScopedEntry Licence) : Bool :=
  governing.contains entry.form && entry.order.all fun order => first_absolute scoped_ entry.form = some order

def selected : Except SelectionUnread (Option (List (RslContent Licence))) :=
  let scoped_ := document.scoped_ u target page page_url
  let unscoped := document.unscoped u target page page_url
  if scoped_.isEmpty then
    match maximum (unscoped.map (·.2)) with
    | none => .ok none
    | some first => .ok (some ((unscoped.filter (·.2 = first)).map (·.1)))
  else do
    let governing ← governing_forms scoped_
    return some ((scoped_.filter (governs scoped_ governing)).map (·.content))

def content_for_reading : Except SelectionUnread (Option (RslContent Licence)) := do
  match ← document.selected u target page page_url with
  | none => return none
  | some [] => .error .none_governs
  | some (first :: rest) =>
    return some (rest.foldl (fun combined content =>
      { combined with server := combined.server <|> content.server, licences := combined.licences ++ content.licences }) first)

def first_selected (pages : Option (List Text)) : Nat → List Text → Except SelectionUnread (Option (RslContent Licence))
  | _, [] => .ok none
  | index, target :: targets => do
    match ← document.content_for_reading u target (pages.bind (·[index]?)) page_url with
    | some content => return some content
    | none => first_selected pages (index + 1) targets

def content_for : Except SelectionUnread (Option (RslContent Licence)) :=
  let target := request_target u page_url
  let targets := match matching_target_readings u target with
    | .ok readings => readings
    | .error _ => [matching_target target]
  let pages := (u.parse page_url).map fun page =>
    match matching_url_readings u page with
    | .ok readings => readings
    | .error _ => [matching_url u page]
  document.first_selected u page_url pages 0 targets

end RslDocument

theorem maximum_mem {orders : List WrittenOrder} {first : WrittenOrder} (is : maximum orders = some first) :
    first ∈ orders := by
  have walk (start : Option WrittenOrder) (ends : orders.foldl
      (fun first order => some (first.elim order (WrittenOrder.max · order))) start = some first) :
      first ∈ orders ∨ start = some first := by
    clear is
    induction orders generalizing start with
    | nil => exact Or.inr ends
    | cons order orders ih =>
      rcases ih _ ends with later | here
      · exact Or.inl (List.mem_cons_of_mem _ later)
      · cases start with
        | none => exact Or.inl (by simp [← Option.some.inj here])
        | some kept =>
          have chosen : WrittenOrder.max kept order = kept ∨ WrittenOrder.max kept order = order := by
            unfold WrittenOrder.max
            repeat' split
            all_goals simp
          have larger : WrittenOrder.max kept order = first := Option.some.inj here
          rcases chosen with same | same
          · exact Or.inr (by rw [← larger, same])
          · exact Or.inl (by simp [← larger, same])
  rcases walk none is with member | nothing
  · exact member
  · cases nothing

theorem maximum_none {orders : List WrittenOrder} (none_ : maximum orders = none) : orders = [] := by
  cases orders with
  | nil => rfl
  | cons order orders =>
    have walk (start : WrittenOrder) : orders.foldl
        (fun first order => some (first.elim order (WrittenOrder.max · order))) (some start) ≠ none := by
      clear none_
      induction orders generalizing start with
      | nil => simp
      | cons order orders ih => exact ih _
    exact absurd none_ (walk order)

theorem strictly_within_iff {inner outer : Text} :
    strictly_within (Scope.new inner) (Scope.new outer) = true ↔
      (Scope.new inner).within (Scope.new outer) = true ∧ (Scope.new outer).within (Scope.new inner) = false := by
  unfold strictly_within
  rw [form_new, form_new]
  by_cases same : inner = outer
  · subst same
    simp [within_refl]
  · simp [same]

variable {scoped_ : List (ScopedEntry Licence)}

theorem mem_distinct {scope : Scope} : scope ∈ distinct scoped_ ↔ ∃ entry ∈ scoped_, Scope.new entry.form = scope := by
  simp [distinct]

theorem narrowest_scope (plain : ∀ entry ∈ scoped_, ANY_RUN ∉ entry.form) (some_ : scoped_ ≠ []) :
    ∃ entry ∈ scoped_, ∀ other ∈ scoped_, strictly_within (Scope.new other.form) (Scope.new entry.form) = false := by
  let within (a b : { entry // entry ∈ scoped_ }) : Prop := (Scope.new a.1.form).within (Scope.new b.1.form) = true
  obtain ⟨entry, _, least⟩ := @exists_narrowest _ within (fun a => within_refl a.1.form)
    (fun _ _ c first second => within_trans (plain c.1 c.2) first second) scoped_.attach
    (fun none_ => some_ (List.attach_eq_nil_iff.mp none_))
  refine ⟨entry.1, entry.2, fun other member => ?_⟩
  by_contra strict
  obtain ⟨inside, apart⟩ := strictly_within_iff.mp (Bool.eq_true_of_not_eq_false strict)
  have back := least ⟨other, member⟩ (List.mem_attach _ _) inside
  exact Bool.false_ne_true (apart.symm.trans back)

theorem governing_forms_ok (plain : ∀ entry ∈ scoped_, ANY_RUN ∉ entry.form) (some_ : scoped_ ≠ [])
    (budget : selection_work scoped_ (distinct scoped_) ≤ SELECTION_BUDGET) :
    ∃ governing, governing_forms scoped_ = .ok governing ∧ ∃ entry ∈ scoped_, entry.form ∈ governing := by
  obtain ⟨entry, member, least⟩ := narrowest_scope plain some_
  have governs : Scope.new entry.form ∈ (distinct scoped_).filter fun outer =>
      !(distinct scoped_).any fun inner => strictly_within inner outer := by
    rw [List.mem_filter]
    refine ⟨mem_distinct.mpr ⟨entry, member, rfl⟩, ?_⟩
    simp only [Bool.not_eq_true', List.any_eq_false]
    intro inner inside
    obtain ⟨other, among, rfl⟩ := mem_distinct.mp inside
    simp [least other among]
  refine ⟨_, ?_, entry, member, List.mem_map.mpr ⟨_, governs, form_new entry.form⟩⟩
  have some_governs := List.ne_nil_of_mem governs
  unfold governing_forms
  rw [if_neg (by omega)]
  simp only [List.isEmpty_iff, if_neg some_governs]

theorem governing_forms_strict {governing : List Text} (governed : governing_forms scoped_ = .ok governing)
    {entry other : ScopedEntry Licence} (governs : entry.form ∈ governing) (member : other ∈ scoped_) :
    strictly_within (Scope.new other.form) (Scope.new entry.form) = false := by
  simp only [governing_forms] at governed
  split at governed
  · cases governed
  split at governed
  · cases governed
  obtain rfl := Except.ok.inj governed
  obtain ⟨scope, inside, same⟩ := List.mem_map.mp governs
  obtain ⟨among, least⟩ := List.mem_filter.mp inside
  obtain ⟨first, _, rfl⟩ := mem_distinct.mp among
  rw [form_new] at same
  simp only [Bool.not_eq_true', List.any_eq_false] at least
  simpa [same] using least _ (mem_distinct.mpr ⟨other, member, rfl⟩)

namespace RslDocument

theorem first_absolute_survives {governing : List Text} {entry : ScopedEntry Licence} (member : entry ∈ scoped_)
    (governs_ : entry.form ∈ governing) : ∃ kept ∈ scoped_, kept.form = entry.form ∧ governs scoped_ governing kept = true := by
  have holds {kept : ScopedEntry Licence} (same : kept.form = entry.form)
      (first : ∀ order, kept.order = some order → first_absolute scoped_ entry.form = some order) :
      governs scoped_ governing kept = true := by
    unfold governs
    rw [same]
    cases order : kept.order with
    | none => simpa using governs_
    | some order_ => simpa [first order_ order] using governs_
  cases among : first_absolute scoped_ entry.form with
  | none =>
    have nothing := maximum_none among
    refine ⟨entry, member, rfl, holds rfl ?_⟩
    intro order is
    have inside : order ∈ (scoped_.filter (·.form = entry.form)).filterMap (·.order) :=
      List.mem_filterMap.mpr ⟨entry, List.mem_filter.mpr ⟨member, by simp⟩, is⟩
    rw [nothing] at inside
    cases inside
  | some first =>
    obtain ⟨kept, inside, is⟩ := List.mem_filterMap.mp (maximum_mem among)
    obtain ⟨present, same⟩ := List.mem_filter.mp inside
    refine ⟨kept, present, by simpa using same, holds (by simpa using same) ?_⟩
    intro order found
    rw [among, ← is, found]

variable {u : UrlCrate Url} {document : RslDocument Licence} {target page_url : Text} {page : Option Text}

theorem absolute_scope_plain {pattern form : Text} (under : absolute_scope u pattern page page_url = some (some form)) :
    ANY_RUN ∉ form := by
  unfold absolute_scope at under
  cases parsed : u.parse pattern with
  | none =>
    rw [parsed] at under
    have nothing := (Option.ite_none_right_eq_some.mp under).2
    cases nothing
  | some scope =>
    rw [parsed] at under
    obtain ⟨_, same⟩ := Option.ite_none_right_eq_some.mp under
    obtain rfl := Option.some.inj (Option.some.inj same)
    exact fun member => (matching_target_plain _ _ member).1 rfl

theorem scoped_plain : ∀ entry ∈ document.scoped_ u target page page_url, ANY_RUN ∉ entry.form := by
  intro entry member
  obtain ⟨read, inside, is⟩ := List.mem_filterMap.mp member
  obtain ⟨content, _, matched⟩ := List.mem_filterMap.mp inside
  cases read with
  | unscoped => cases is
  | scoped_ entry_ =>
    obtain rfl := Option.some.inj is
    simp only [matching] at matched
    split at matched
    · cases matched
    · split at matched
      · cases matched
        exact matching_pattern_plain _
      · cases matched
    · split at matched
      · rename_i form absolute
        cases matched
        exact absolute_scope_plain absolute
      · cases matched
      · cases matched

theorem selected_spec (some_ : document.scoped_ u target page page_url ≠ [])
    (budget : selection_work (document.scoped_ u target page page_url) (distinct (document.scoped_ u target page page_url)) ≤
      SELECTION_BUDGET) :
    ∃ kept, kept.Sublist (document.scoped_ u target page page_url) ∧ kept ≠ [] ∧
      document.selected u target page page_url = .ok (some (kept.map (·.content))) ∧
      ∀ entry ∈ kept, ∀ other ∈ document.scoped_ u target page page_url,
        strictly_within (Scope.new other.form) (Scope.new entry.form) = false := by
  obtain ⟨governing, governed, entry, member, governs_⟩ := governing_forms_ok scoped_plain some_ budget
  obtain ⟨kept, present, _, survives⟩ := first_absolute_survives member governs_
  refine ⟨(document.scoped_ u target page page_url).filter (governs (document.scoped_ u target page page_url) governing),
    List.filter_sublist, List.ne_nil_of_mem (List.mem_filter.mpr ⟨present, survives⟩), ?_, ?_⟩
  · simp only [selected, List.isEmpty_iff, if_neg some_, governed]
    rfl
  · intro entry inside other among
    have within := (List.mem_filter.mp inside).2
    unfold governs at within
    simp only [Bool.and_eq_true, List.contains_iff_mem] at within
    exact governing_forms_strict governed within.1 among

theorem selected_unscoped (none_ : document.scoped_ u target page page_url = []) :
    (document.selected u target page page_url = .ok none) ∨
      ∃ first rest, document.selected u target page page_url = .ok (some (first :: rest)) := by
  simp only [selected, none_, List.isEmpty_nil, if_true]
  cases first : maximum ((document.unscoped u target page page_url).map (·.2)) with
  | none => exact Or.inl rfl
  | some order =>
    obtain ⟨entry, inside, is⟩ := List.mem_map.mp (maximum_mem first)
    have kept : entry ∈ (document.unscoped u target page page_url).filter (·.2 = order) :=
      List.mem_filter.mpr ⟨inside, by simpa using is⟩
    obtain ⟨first_, rest, cut⟩ := List.exists_cons_of_ne_nil (List.ne_nil_of_mem kept)
    refine Or.inr ⟨first_.1, rest.map (·.1), ?_⟩
    simp only [cut, List.map_cons]

theorem reading_governed : document.content_for_reading u target page page_url ≠ .error .none_governs := by
  have some_selected : document.selected u target page page_url ≠ .ok (some []) ∧
      document.selected u target page page_url ≠ .error .none_governs := by
    by_cases none_ : document.scoped_ u target page page_url = []
    · rcases selected_unscoped none_ with nothing | ⟨first, rest, some_⟩
      · simp [nothing]
      · simp [some_]
    · by_cases budget : selection_work (document.scoped_ u target page page_url)
          (distinct (document.scoped_ u target page page_url)) ≤ SELECTION_BUDGET
      · obtain ⟨kept, _, some_, is, _⟩ := selected_spec none_ budget
        simp [is, some_]
      · have past_ : governing_forms (document.scoped_ u target page page_url) = .error .over_budget := by
          unfold governing_forms
          rw [if_pos (by omega)]
        have unread : document.selected u target page page_url = .error .over_budget := by
          simp only [selected, List.isEmpty_iff, if_neg none_, past_]
          rfl
        simp [unread]
  intro answer
  unfold content_for_reading at answer
  cases is : document.selected u target page page_url with
  | error unread =>
    rw [is] at answer
    obtain rfl := Except.error.inj answer
    exact some_selected.2 is
  | ok chosen =>
    rw [is] at answer
    match chosen with
    | none => cases answer
    | some [] => exact some_selected.1 is
    | some (first :: rest) => cases answer

theorem first_selected_governed (pages : Option (List Text)) (index : Nat) (targets : List Text) :
    document.first_selected u page_url pages index targets ≠ .error .none_governs := by
  induction targets generalizing index with
  | nil => simp [first_selected]
  | cons target targets ih =>
    intro answer
    rw [first_selected] at answer
    cases is : document.content_for_reading u target (pages.bind (·[index]?)) page_url with
    | error unread =>
      rw [is] at answer
      obtain rfl := Except.error.inj answer
      exact reading_governed is
    | ok chosen =>
      rw [is] at answer
      cases chosen with
      | none => exact ih (index + 1) answer
      | some content => cases answer

/-- A strict containment order leaves one entry of any that match, so the answer that none governs is never given. -/
theorem content_for_governed (u : UrlCrate Url) (document : RslDocument Licence) (page_url : Text) :
    document.content_for u page_url ≠ .error .none_governs ∧
    ∀ (target : Text) (page : Option Text),
      document.content_for_reading u target page page_url ≠ .error .none_governs ∧
      (∀ entry ∈ document.scoped_ u target page page_url, (Scope.new entry.form).within (Scope.new entry.form) = true) ∧
      (∀ a ∈ document.scoped_ u target page page_url, ∀ b ∈ document.scoped_ u target page page_url,
        ∀ c ∈ document.scoped_ u target page page_url, (Scope.new a.form).within (Scope.new b.form) = true →
          (Scope.new b.form).within (Scope.new c.form) = true → (Scope.new a.form).within (Scope.new c.form) = true) ∧
      (document.scoped_ u target page page_url ≠ [] →
        selection_work (document.scoped_ u target page page_url) (distinct (document.scoped_ u target page page_url)) ≤
          SELECTION_BUDGET →
        ∃ kept, kept.Sublist (document.scoped_ u target page page_url) ∧ kept ≠ [] ∧
          document.selected u target page page_url = .ok (some (kept.map (·.content))) ∧
          ∀ entry ∈ kept, ∀ other ∈ document.scoped_ u target page page_url,
            strictly_within (Scope.new other.form) (Scope.new entry.form) = false) := by
  refine ⟨?_, fun target page => ⟨reading_governed, fun entry _ => within_refl entry.form, ?_, selected_spec⟩⟩
  · unfold content_for
    exact first_selected_governed _ 0 _
  · intro a _ b _ c member first second
    exact within_trans (scoped_plain c member) first second

end RslDocument

end CommonMeasure.Declarations
