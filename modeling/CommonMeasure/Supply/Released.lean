import CommonMeasure.Foundation.Words

namespace CommonMeasure.Supply

def CORPUS_VARIABLE : String := "COMMONMEASURE_INTERNAL_CORPUS"

def CATALOGUE_VARIABLE : String := "COMMONMEASURE_SKILL_CATALOGUE"

def SKILL_PROVIDER_PREFIX : String := "skill:"

def isSkill (provider : String) : Bool := SKILL_PROVIDER_PREFIX.toList.isPrefixOf provider.toList

def REMOTE : List (String × String) :=
  [("dataville", "DATAVILLE_API_KEY"), ("exa", "EXA_API_KEY"), ("firecrawl", "FIRECRAWL_API_KEY"),
    ("parallel", "PARALLEL_API_KEY"), ("keenable", "KEENABLE_API_KEY"), ("linkup", "LINKUP_API_KEY"),
    ("nimble", "NIMBLE_API_KEY"), ("ozone", "OZONE_LIVE_API_KEY"), ("valyu", "VALYU_API_KEY"),
    ("peopleinc", "PEOPLEINC_API_KEY"), ("search1api", "SEARCH1API_API_KEY"), ("serpdive", "SERPDIVE_API_KEY"),
    ("you", "YOU_API_KEY"), ("tavily", "TAVILY_API_KEY"), ("tinyfish", "TINYFISH_API_KEY"),
    ("redpine", "REDPINE_API_KEY"), ("tollbit", "TOLLBIT_API_KEY")]

def required_variable (provider : String) : Option String :=
  match REMOTE.lookup provider with
  | some variable_ => some variable_
  | none =>
    if provider = "internal" then some CORPUS_VARIABLE
    else if isSkill provider && SKILL_PROVIDER_PREFIX.length < provider.length then some CATALOGUE_VARIABLE
    else none

/-- Whether `remote_adapter` builds an adapter for the provider. -/
def remote_adapter (provider : String) : Bool := (REMOTE.lookup provider).isSome

structure Released where
  connection_id : String
  provider : String
  variable_ : String
  rotated_at : Option String
  fetched_at : String
  value : String
  deriving DecidableEq

structure ReleasedName where
  connection_id : String
  provider : String
  variable_ : String
  fetched_at : String
  rotated_at : Option String
  deriving DecidableEq

def isBlank (value : String) : Bool := (trim value.toList).isEmpty

def Released.new (connection_id provider variable_ value : String) (rotated_at : Option String) (fetched_at : String) :
    Option Released :=
  if remote_adapter provider && required_variable provider = some variable_ && !isBlank value && connection_id ≠ "" then
    some { connection_id, provider, variable_, rotated_at, fetched_at, value }
  else none

def Released.same_as (before after : Released) : Bool :=
  before.connection_id = after.connection_id && before.provider = after.provider && before.variable_ = after.variable_ &&
    before.rotated_at = after.rotated_at && before.value = after.value

def Released.name (r : Released) : ReleasedName :=
  { connection_id := r.connection_id, provider := r.provider, variable_ := r.variable_, fetched_at := r.fetched_at,
    rotated_at := r.rotated_at }

structure ReleasedStore where
  released : List Released
  confirmed : Option Nat
  max_age : Nat
  deriving DecidableEq

structure ReleasedStanding where
  in_use : List ReleasedName
  shadowed : List ReleasedName
  expired : List ReleasedName
  max_age : Nat
  deriving DecidableEq

namespace ReleasedStore

def new (max_age : Nat) : ReleasedStore := { released := [], confirmed := none, max_age }

/-- Whether the set is past its age where the clock reads `now`. -/
def is_expired (store : ReleasedStore) (now : Nat) : Bool :=
  !store.released.isEmpty && store.confirmed.all fun confirmed => store.max_age ≤ now - confirmed

def in_use (store : ReleasedStore) (now : Nat) : List Released := if store.is_expired now then [] else store.released

/-- The store with that set, and whether it differs from the one in use. The clock is read at `now` to tell whether
the held set has expired, and at `confirmed` for the new one. -/
def replace (store : ReleasedStore) (released : List Released) (now confirmed : Nat) : ReleasedStore × Bool :=
  let in_use := store.in_use now
  ({ store with released, confirmed := some confirmed },
    in_use.length ≠ released.length || (in_use.zip released).any fun pair => !pair.1.same_as pair.2)

def clear (store : ReleasedStore) (now confirmed : Nat) : ReleasedStore × Bool := store.replace [] now confirmed

def names (store : ReleasedStore) (now : Nat) : List ReleasedName := (store.in_use now).map Released.name

def expired (store : ReleasedStore) (now : Nat) : List ReleasedName :=
  if store.is_expired now then store.released.map Released.name else []

/-- The clock is read at `now` for the names and at `later` for those expired. -/
def standing_under (store : ReleasedStore) (already_set : String → Bool) (now later : Nat) : ReleasedStanding :=
  let named := store.names now
  { in_use := named.filter fun name => !already_set name.variable_
    shadowed := named.filter fun name => already_set name.variable_
    expired := store.expired later
    max_age := store.max_age }

def value_of (store : ReleasedStore) (variable_ : String) (now : Nat) : Option String :=
  ((store.in_use now).find? fun released => released.variable_ = variable_).map Released.value

end ReleasedStore

/-- The value for the variable: the environment's, else the released one, else the variable that is missing. -/
def credential_for (variable_ : String) (released : Option ReleasedStore) (environment : String → Option String)
    (now : Nat) : Except String String :=
  match ((environment variable_).filter fun value => !isBlank value).or
      (released.bind fun store => store.value_of variable_ now) with
  | some value => .ok value
  | none => .error variable_

/-- The credential `supplier_with_released` reads for a provider, where the provider names a variable. -/
def supplier_with_released (provider : String) (released : Option ReleasedStore) (environment : String → Option String)
    (now : Nat) : Option (Except String String) :=
  let local_only : Bool := provider = "internal" || isSkill provider
  (required_variable provider).map fun variable_ =>
    credential_for variable_ (released.filter fun _ => !local_only) environment now

theorem lookup_mem {provider variable_ : String} (found : REMOTE.lookup provider = some variable_) :
    (provider, variable_) ∈ REMOTE := by
  obtain ⟨before, after, is, _⟩ := List.lookup_eq_some_iff.mp found
  rw [is]
  exact List.mem_append_right _ List.mem_cons_self

theorem remote_variable {provider : String} (remote : remote_adapter provider = true) :
    ∃ variable_, (provider, variable_) ∈ REMOTE ∧ required_variable provider = some variable_ := by
  obtain ⟨variable_, found⟩ := Option.isSome_iff_exists.mp remote
  refine ⟨variable_, lookup_mem found, ?_⟩
  rw [required_variable, found]

theorem REMOTE_variables : (REMOTE.map Prod.snd).Nodup := by decide +kernel

theorem remote_unique {p q variable_ : String} (one : remote_adapter p = true) (other : remote_adapter q = true)
    (needs : required_variable p = some variable_) (also : required_variable q = some variable_) : p = q := by
  obtain ⟨v, listed, is⟩ := remote_variable one
  obtain ⟨w, listed', is'⟩ := remote_variable other
  obtain rfl : v = variable_ := Option.some.inj (is.symm.trans needs)
  obtain rfl : w = v := Option.some.inj (is'.symm.trans also)
  exact congrArg Prod.fst (List.inj_on_of_nodup_map REMOTE_variables listed listed' rfl)

theorem remote_of_variable {provider variable_ : String} (remote : ¬(provider = "internal" ∨ isSkill provider = true))
    (needs : required_variable provider = some variable_) : remote_adapter provider = true := by
  rw [not_or, Bool.not_eq_true] at remote
  unfold required_variable at needs
  unfold remote_adapter
  split at needs
  · rename_i found
    rw [found]
    rfl
  · rw [if_neg remote.1, remote.2] at needs
    cases needs

theorem Released.of_new {connection_id provider variable_ value fetched_at : String} {rotated_at : Option String}
    {r : Released} (is : Released.new connection_id provider variable_ value rotated_at fetched_at = some r) :
    r = { connection_id, provider, variable_, rotated_at, fetched_at, value } ∧ remote_adapter provider = true ∧
      required_variable provider = some variable_ ∧ isBlank value = false ∧ connection_id ≠ "" := by
  unfold Released.new at is
  split at is
  · rename_i all
    simp only [Bool.and_eq_true, decide_eq_true_eq, Bool.not_eq_true'] at all
    cases is
    exact ⟨rfl, all.1.1.1, all.1.1.2, all.1.2, all.2⟩
  · cases is

namespace ReleasedStore

variable {store : ReleasedStore} {variable_ value : String} {now : Nat}

theorem in_use_mem {r : Released} (used : r ∈ store.in_use now) :
    r ∈ store.released ∧ ∃ confirmed, store.confirmed = some confirmed ∧ now - confirmed < store.max_age := by
  unfold in_use at used
  split at used
  · cases used
  · rename_i fresh
    refine ⟨used, ?_⟩
    have held : store.released.isEmpty = false := by
      cases is : store.released with
      | nil =>
        rw [is] at used
        cases used
      | cons => rfl
    cases is : store.confirmed with
    | none => simp [is_expired, held, is] at fresh
    | some confirmed =>
      refine ⟨confirmed, rfl, ?_⟩
      simpa [is_expired, held, is] using fresh

theorem value_of_eq (is : store.value_of variable_ now = some value) :
    ∃ r ∈ store.in_use now, r.variable_ = variable_ ∧ r.value = value := by
  obtain ⟨r, found, rfl⟩ := Option.map_eq_some_iff.mp is
  exact ⟨r, List.mem_of_find?_eq_some found, by simpa using List.find?_some found, rfl⟩

end ReleasedStore

theorem supplied {provider value : String} {released : Option ReleasedStore} {environment : String → Option String}
    {now : Nat} (is : supplier_with_released provider released environment now = some (.ok value)) :
    ∃ variable_, required_variable provider = some variable_ ∧
      ((environment variable_ = some value ∧ isBlank value = false) ∨
        ((∀ held, environment variable_ = some held → isBlank held = true) ∧
          (¬(provider = "internal" ∨ isSkill provider = true)) ∧
          ∃ store, released = some store ∧ store.value_of variable_ now = some value)) := by
  obtain ⟨variable_, needs, given⟩ := Option.map_eq_some_iff.mp is
  refine ⟨variable_, needs, ?_⟩
  unfold credential_for at given
  split at given
  · rename_i held found
    cases given
    rcases Option.or_eq_some_iff.mp found with here | ⟨absent, there⟩
    · have both := Option.filter_eq_some_iff.mp here
      exact Or.inl ⟨both.1, by simpa using both.2⟩
    · refine Or.inr ⟨fun held held_ => ?_, ?_⟩
      · simpa [held_] using absent
      · obtain ⟨store, kept, is⟩ := Option.bind_eq_some_iff.mp there
        have both := Option.filter_eq_some_iff.mp kept
        exact ⟨by simpa using both.2, store, both.1, is⟩
  · cases given

end CommonMeasure.Supply
