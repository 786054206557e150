import CommonMeasure.Foundation.Recency
import CommonMeasure.Integrity.Release

/-!
# Deliveries held for display

The signed releases one server delivered, by acquisition handle and by content hash.
-/

namespace CommonMeasure.Display
open Integrity (VerificationState)

structure Digests (Sidecar Declared : Type) where
  sha256_digest : String → String
  sidecar_digest : Sidecar → String
  declared_digest : Declared → String
  spelled : ∀ text, ':' ∈ (sha256_digest text).toList
  text_injective : Function.Injective sha256_digest
  sidecar_injective : Function.Injective sidecar_digest
  declared_injective : Function.Injective declared_digest

def Handle := {text : String // ':' ∉ text.toList}

def HELD_RELEASES : Nat := 16

variable {Sidecar Declared : Type}

structure Read (D : Digests Sidecar Declared) where
  text : String
  sidecar : Sidecar
  verification : VerificationState
  content_hash : String
  hashed : content_hash = D.sha256_digest text

structure Identity where
  content_hash : String
  sidecar_digest : String
  verification : VerificationState
  url : String
  declared_digest : String
  deriving DecidableEq

structure Held (D : Digests Sidecar Declared) where
  read : Read D
  url : String
  acquisition_ids : List String
  declared : Declared
  identity : Identity

structure Delivered (D : Digests Sidecar Declared) where
  releases : List (Held D)
  other : Finset String
  let_go : Finset String

inductive Refusal where
  | ambiguous (count : Nat) (handles : List String)
  | let_go
  | other
  | never
  deriving DecidableEq

def Refusal.text : Refusal → String
  | .ambiguous count handles =>
    "refused: this server holds " ++ toString count ++ " different deliveries of a signed release with that content_hash (the " ++
      "same text under another sidecar, signature or URL, or fetched under other declarations or terms), so the hash does not " ++
      "say which to display against or whose terms to sign; name the release by the acquisition_id its context_fetch returned" ++
      if handles.isEmpty then "" else " (" ++ ", ".intercalate handles ++ ")"
  | .let_go =>
    "refused: this server holds the last " ++ toString HELD_RELEASES ++
      " signed releases it delivered and has let that one go; " ++
      "fetch it again with context_fetch and display against the new result"
  | .other =>
    "refused: what this session's context_fetch delivered under that acquisition_id or content_hash was not served as a signed " ++
      "release, so there are no signed passages or markers to display a reply against"
  | .never =>
    "refused: no context_fetch in this session delivered a signed release under that acquisition_id or content_hash; a display " ++
      "renders only against a release this server fetched and verified"

section

variable {D : Digests Sidecar Declared}

variable (D) in
def Identity.of (read : Read D) (url : String) (declared : Declared) : Identity where
  content_hash := read.content_hash
  sidecar_digest := D.sidecar_digest read.sidecar
  verification := read.verification
  url := url
  declared_digest := D.declared_digest declared

def evict : List (Held D) → Finset String → List (Held D) × Finset String
  | [], let_go => ([], let_go)
  | oldest :: rest, let_go =>
    if HELD_RELEASES < (oldest :: rest).length then
      evict rest (insert oldest.read.content_hash let_go ∪ oldest.acquisition_ids.toFinset)
    else (oldest :: rest, let_go)

def Delivered.merged (s : Delivered D) (read : Read D) (url : String) (acquisition_id : Option String)
    (declared : Declared) : Held D :=
  match s.releases.find? (·.identity = Identity.of D read url declared) with
  | some earlier => { earlier with acquisition_ids := earlier.acquisition_ids ++ acquisition_id.toList }
  | none => ⟨read, url, acquisition_id.toList, declared, Identity.of D read url declared⟩

def Delivered.hold_release (s : Delivered D) (read : Read D) (url : String) (acquisition_id : Option String)
    (declared : Declared) : Delivered D :=
  let identity := Identity.of D read url declared
  let held := s.merged read url acquisition_id declared
  let let_go := s.let_go.erase held.read.content_hash \ held.acquisition_ids.toFinset
  let kept := evict (s.releases.eraseP (·.identity = identity) ++ [held]) let_go
  { s with releases := kept.1, let_go := kept.2 }

def Delivered.note_other (s : Delivered D) (content_hash : String) (acquisition_id : Option String) : Delivered D :=
  { s with other := insert content_hash s.other ∪ acquisition_id.toList.toFinset }

def Delivered.release (s : Delivered D) (key : String) : Except Refusal (Held D) :=
  match s.releases.find? fun held => key ∈ held.acquisition_ids with
  | some held => .ok held
  | none =>
    match s.releases.filter (·.read.content_hash = key) with
    | [held] => .ok held
    | [] => .error (if key ∈ s.let_go then .let_go else if key ∈ s.other then .other else .never)
    | several => .error (.ambiguous several.length (several.flatMap (·.acquisition_ids)))

/-! ### The calls of a session -/

inductive Call (D : Digests Sidecar Declared) where
  | hold_release (read : Read D) (url : String) (acquisition_id : Option Handle) (declared : Declared)
  | note_other (content_hash : String) (acquisition_id : Option Handle)

def Call.acquisition_id : Call D → Option Handle
  | .hold_release _ _ id _ | .note_other _ id => id

def Call.identity : Call D → Option Identity
  | .hold_release read url _ declared => some (.of D read url declared)
  | .note_other _ _ => none

def step (s : Delivered D) : Call D → Delivered D
  | .hold_release read url id declared => s.hold_release read url (id.map Subtype.val) declared
  | .note_other content_hash id => s.note_other content_hash (id.map Subtype.val)

def run (calls : List (Call D)) : Delivered D := calls.foldl step ⟨[], ∅, ∅⟩

def HandlesApart (calls : List (Call D)) : Prop := (calls.filterMap Call.acquisition_id).Nodup

theorem evict_releases (held : List (Held D)) (let_go : Finset String) :
    (evict held let_go).1 = held.drop (held.length - HELD_RELEASES) := by
  induction held generalizing let_go with
  | nil => rfl
  | cons oldest rest ih =>
    rw [evict]
    split
    · rename_i more
      rw [ih]
      rw [List.length_cons] at more ⊢
      have one : rest.length + 1 - HELD_RELEASES = rest.length - HELD_RELEASES + 1 := by omega
      rw [one, List.drop_succ_cons]
    · rename_i few
      have none_ : (oldest :: rest).length - HELD_RELEASES = 0 := by omega
      rw [none_, List.drop_zero]

theorem mem_evict {held : List (Held D)} {let_go : Finset String} {key : String} :
    key ∈ (evict held let_go).2 ↔ key ∈ let_go ∨
      ∃ h ∈ held.take (held.length - HELD_RELEASES), key = h.read.content_hash ∨ key ∈ h.acquisition_ids := by
  induction held generalizing let_go with
  | nil =>
    rw [evict, List.take_nil]
    exact ⟨.inl, fun either => either.resolve_right fun ⟨_, listed, _⟩ => by cases listed⟩
  | cons oldest rest ih =>
    rw [evict]
    split
    · rename_i more
      rw [List.length_cons] at more ⊢
      have one : rest.length + 1 - HELD_RELEASES = rest.length - HELD_RELEASES + 1 := by omega
      rw [ih, one, List.take_succ_cons, Finset.mem_union, Finset.mem_insert, List.mem_toFinset, List.exists_mem_cons_iff]
      simp only [or_assoc]
      exact or_left_comm
    · rename_i few
      have none_ : (oldest :: rest).length - HELD_RELEASES = 0 := by omega
      rw [none_, List.take_zero]
      exact ⟨.inl, fun either => either.resolve_right fun ⟨_, listed, _⟩ => by cases listed⟩

theorem map_eraseP {α β : Type} [DecidableEq β] (f : α → β) (b : β) (items : List α) :
    (items.eraseP fun a => f a = b).map f = (items.map f).erase b := by
  induction items with
  | nil => rfl
  | cons a items ih =>
    by_cases same : f a = b
    · rw [List.eraseP_cons_of_pos (by simpa using same), List.map_cons, same, List.erase_cons_head]
    · rw [List.eraseP_cons_of_neg (by simpa using same), List.map_cons, List.map_cons, ih,
        List.erase_cons_tail (by simpa using same)]

structure Holding (calls : List (Call D)) (s : Delivered D) : Prop where
  recent : s.releases.map (·.identity) = Recency.run HELD_RELEASES (calls.filterMap Call.identity)
  own : ∀ held ∈ s.releases, held.identity = .of D held.read held.url held.declared
  issued : ∀ held ∈ s.releases, ∀ id ∈ held.acquisition_ids, ∃ read url handle declared,
    Call.hold_release read url (some handle) declared ∈ calls ∧ handle.1 = id ∧ .of D read url declared = held.identity
  texts : ∀ read url id declared, Call.hold_release read url id declared ∈ calls →
    (∃ held ∈ s.releases, held.read.content_hash = read.content_hash) ∨ read.content_hash ∈ s.let_go
  handles : ∀ before read url handle declared after, calls = before ++ .hold_release read url (some handle) declared :: after →
    (∃ held ∈ s.releases, held.identity = .of D read url declared ∧ handle.1 ∈ held.acquisition_ids) ∨
      handle.1 ∈ s.let_go ∧
        HELD_RELEASES ≤ ((after.filterMap Call.identity).toFinset.erase (.of D read url declared)).card
  let_go : ∀ key ∈ s.let_go, ∃ read url id declared, Call.hold_release read url id declared ∈ calls ∧
    (key = read.content_hash ∨ ∃ handle, id = some handle ∧ handle.1 = key)
  noted : ∀ content_hash id, Call.note_other content_hash id ∈ calls →
    content_hash ∈ s.other ∧ ∀ handle, id = some handle → handle.1 ∈ s.other

section

variable {calls : List (Call D)} {s : Delivered D} {read : Read D} {url : String} {declared : Declared}
  {id : Option String}

theorem merged_spec (own : ∀ held ∈ s.releases, held.identity = .of D held.read held.url held.declared) :
    (s.merged read url id declared).identity = .of D read url declared ∧
      (s.merged read url id declared).identity = .of D (s.merged read url id declared).read
        (s.merged read url id declared).url (s.merged read url id declared).declared ∧
      ∀ key ∈ (s.merged read url id declared).acquisition_ids, id = some key ∨
        ∃ held ∈ s.releases, held.identity = .of D read url declared ∧ key ∈ held.acquisition_ids := by
  unfold Delivered.merged
  cases found : s.releases.find? (·.identity = Identity.of D read url declared) with
  | none =>
    refine ⟨rfl, rfl, fun key listed => .inl ?_⟩
    exact Option.mem_toList.mp listed
  | some earlier =>
    have same : earlier.identity = Identity.of D read url declared := by simpa using List.find?_some found
    have listed := List.mem_of_find?_eq_some found
    refine ⟨same, own earlier listed, fun key member => ?_⟩
    rcases List.mem_append.mp member with before | new
    · exact .inr ⟨earlier, listed, same, before⟩
    · exact .inl (Option.mem_toList.mp new)

theorem merged_covers (nodup : (s.releases.map (·.identity)).Nodup) :
    (∀ key, id = some key → key ∈ (s.merged read url id declared).acquisition_ids) ∧
      ∀ held ∈ s.releases, held.identity = .of D read url declared →
        ∀ key ∈ held.acquisition_ids, key ∈ (s.merged read url id declared).acquisition_ids := by
  unfold Delivered.merged
  cases found : s.releases.find? (·.identity = Identity.of D read url declared) with
  | none =>
    refine ⟨fun key is => Option.mem_toList.mpr is, fun held listed same => ?_⟩
    have other := List.find?_eq_none.mp found held listed
    simp only [same, decide_true, not_true] at other
  | some earlier =>
    have same : earlier.identity = Identity.of D read url declared := by simpa using List.find?_some found
    refine ⟨fun key is => List.mem_append_right _ (Option.mem_toList.mpr is), fun held listed is key member => ?_⟩
    have one := List.inj_on_of_nodup_map nodup listed (List.mem_of_find?_eq_some found) (is.trans same.symm)
    rw [one] at member
    exact List.mem_append_left _ member

theorem hold_releases (s : Delivered D) :
    (s.hold_release read url id declared).releases =
      let more := s.releases.eraseP (·.identity = .of D read url declared) ++ [s.merged read url id declared]
      more.drop (more.length - HELD_RELEASES) :=
  evict_releases _ _

theorem hold_recent (own : ∀ held ∈ s.releases, held.identity = .of D held.read held.url held.declared) :
    (s.hold_release read url id declared).releases.map (·.identity) =
      Recency.touch HELD_RELEASES (s.releases.map (·.identity)) (.of D read url declared) := by
  rw [hold_releases]
  show List.map _ (List.drop _ _) = _
  rw [List.map_drop, List.map_append, map_eraseP, List.map_singleton, (merged_spec own).1, Recency.touch]
  congr 2
  rw [List.length_append, List.length_append, List.length_singleton, List.length_singleton, ← map_eraseP, List.length_map]

theorem mem_hold {held : Held D} (listed : held ∈ (s.hold_release read url id declared).releases) :
    held = s.merged read url id declared ∨ held ∈ s.releases := by
  rw [hold_releases] at listed
  rcases List.mem_append.mp (List.mem_of_mem_drop listed) with earlier | last
  · exact .inr (List.mem_of_mem_eraseP earlier)
  · exact .inl (List.mem_singleton.mp last)

theorem merged_held (s : Delivered D) : s.merged read url id declared ∈ (s.hold_release read url id declared).releases := by
  rw [hold_releases]
  dsimp only
  have positive : 0 < HELD_RELEASES := by decide
  rw [List.length_append, List.length_singleton, List.drop_append_of_le_length (by omega)]
  exact List.mem_append_right _ List.mem_cons_self

theorem hold_others (s : Delivered D) {held : Held D} (listed : held ∈ s.releases)
    (other : held.identity ≠ .of D read url declared) :
    held ∈ (s.hold_release read url id declared).releases ∨
      ∀ key, key = held.read.content_hash ∨ key ∈ held.acquisition_ids →
        key ∈ (s.hold_release read url id declared).let_go := by
  have kept : held ∈ s.releases.eraseP (·.identity = .of D read url declared) ++ [s.merged read url id declared] := by
    apply List.mem_append_left
    exact (List.mem_eraseP_of_neg (by simpa using other)).mpr listed
  generalize eq : s.releases.eraseP (·.identity = .of D read url declared) ++ [s.merged read url id declared] = more at kept
  rw [← List.take_append_drop (more.length - HELD_RELEASES) more] at kept
  rcases List.mem_append.mp kept with old | young
  · right
    intro key named
    show key ∈ (evict _ _).2
    rw [mem_evict, eq]
    exact .inr ⟨held, old, named⟩
  · left
    rw [hold_releases, eq]
    exact young

theorem stays_let_go {key : String} (gone : key ∈ s.let_go) (other : key ≠ (s.merged read url id declared).read.content_hash)
    (unlisted : key ∉ (s.merged read url id declared).acquisition_ids) :
    key ∈ (s.hold_release read url id declared).let_go := by
  show key ∈ (evict _ _).2
  rw [mem_evict, Finset.mem_sdiff, Finset.mem_erase, List.mem_toFinset]
  exact .inl ⟨⟨other, gone⟩, unlisted⟩

theorem let_go_names {key : String} (gone : key ∈ (s.hold_release read url id declared).let_go) :
    key ∈ s.let_go ∨ ∃ held, (held = s.merged read url id declared ∨ held ∈ s.releases) ∧
      (key = held.read.content_hash ∨ key ∈ held.acquisition_ids) := by
  replace gone : key ∈ (evict _ _).2 := gone
  rw [mem_evict] at gone
  rcases gone with before | ⟨held, listed, named⟩
  · rw [Finset.mem_sdiff, Finset.mem_erase] at before
    exact .inl before.1.2
  · refine .inr ⟨held, ?_, named⟩
    rcases List.mem_append.mp (List.mem_of_mem_take listed) with earlier | last
    · exact .inr (List.mem_of_mem_eraseP earlier)
    · exact .inl (List.mem_singleton.mp last)

theorem HandlesApart.same (apart : HandlesApart calls) {one other : Call D} (listed : one ∈ calls) (also : other ∈ calls)
    {handle : Handle} (is : one.acquisition_id = some handle) (too : other.acquisition_id = some handle) : one = other := by
  unfold HandlesApart at apart
  induction calls with
  | nil => cases listed
  | cons c calls ih =>
    have absent : ∀ call ∈ calls, c.acquisition_id = some handle → call.acquisition_id = some handle → False := by
      intro call there first second
      rw [List.filterMap_cons_some first, List.nodup_cons] at apart
      exact apart.1 (List.mem_filterMap.mpr ⟨call, there, second⟩)
    have rest : (calls.filterMap Call.acquisition_id).Nodup := apart.sublist ((List.sublist_cons_self c calls).filterMap _)
    rcases List.mem_cons.mp listed with rfl | first
    · rcases List.mem_cons.mp also with rfl | also
      · rfl
      · exact (absent other also is too).elim
    · rcases List.mem_cons.mp also with rfl | also
      · exact (absent one first too is).elim
      · exact ih rest first also

theorem handle_not_hash (handle : Handle) (read : Read D) : handle.1 ≠ read.content_hash := by
  intro same
  have spelled := D.spelled read.text
  rw [← read.hashed, ← same] at spelled
  exact handle.2 spelled

theorem identity_inj {other : Read D} {elsewhere : String} {also : Declared}
    (same : Identity.of D read url declared = .of D other elsewhere also) :
    read.text = other.text ∧ read.sidecar = other.sidecar ∧ read.verification = other.verification ∧ url = elsewhere ∧
      declared = also ∧ read.content_hash = other.content_hash := by
  have parts := Identity.mk.inj same
  refine ⟨D.text_injective ?_, D.sidecar_injective parts.2.1, parts.2.2.1, parts.2.2.2.1,
    D.declared_injective parts.2.2.2.2, parts.1⟩
  rw [← read.hashed, ← other.hashed, parts.1]

theorem Holding.nodup (holding : Holding calls s) : (s.releases.map (·.identity)).Nodup := by
  rw [holding.recent]
  exact Recency.run_nodup _ _

theorem Holding.called (holding : Holding calls s) {held : Held D} (listed : held ∈ s.releases) :
    ∃ read url id declared, Call.hold_release read url id declared ∈ calls ∧ .of D read url declared = held.identity := by
  have queued : held.identity ∈ s.releases.map (·.identity) := List.mem_map_of_mem listed
  rw [holding.recent] at queued
  obtain ⟨call, there, is⟩ := List.mem_filterMap.mp (Recency.mem_run queued)
  cases call with
  | hold_release read url id declared => exact ⟨read, url, id, declared, there, Option.some.inj is⟩
  | note_other => cases is

theorem merged_hash (holding : Holding calls s) : (s.merged read url id declared).read.content_hash = read.content_hash := by
  obtain ⟨identity, own, _⟩ := @merged_spec _ _ _ s read url declared id holding.own
  exact (identity_inj (own.symm.trans identity)).2.2.2.2.2

theorem merged_handle (holding : Holding calls s) {new : Option Handle} {key : String}
    (listed : key ∈ (s.merged read url (new.map Subtype.val) declared).acquisition_ids) :
    ∃ handle : Handle, handle.1 = key ∧ (new = some handle ∨
      ∃ other elsewhere also, Call.hold_release other elsewhere (some handle) also ∈ calls ∧
        Identity.of D other elsewhere also = .of D read url declared) := by
  rcases (merged_spec holding.own).2.2 key listed with now | ⟨held, there, same, member⟩
  · obtain ⟨handle, is, spelled⟩ := Option.map_eq_some_iff.mp now
    exact ⟨handle, spelled, .inl is⟩
  · obtain ⟨other, elsewhere, handle, also, call, spelled, identity⟩ := holding.issued held there key member
    exact ⟨handle, spelled, .inr ⟨other, elsewhere, also, call, identity.trans same⟩⟩

theorem note_holding (holding : Holding calls s) (content_hash : String) (id : Option Handle) :
    Holding (calls ++ [.note_other content_hash id]) (s.note_other content_hash (id.map Subtype.val)) where
  recent := by
    rw [List.filterMap_append]
    show s.releases.map (·.identity) = Recency.run HELD_RELEASES (_ ++ [])
    rw [List.append_nil, holding.recent]
  own := holding.own
  issued held listed key member := by
    obtain ⟨read, url, handle, declared, call, rest⟩ := holding.issued held listed key member
    exact ⟨read, url, handle, declared, List.mem_append_left _ call, rest⟩
  texts read url id declared listed := by
    rcases List.mem_append.mp listed with earlier | now
    · exact holding.texts read url id declared earlier
    · cases List.mem_singleton.mp now
  handles before read url handle declared after same := by
    cases after using List.reverseRecOn with
    | nil =>
      have last := congrArg List.getLast? same
      rw [List.getLast?_concat, List.getLast?_concat] at last
      cases Option.some.inj last
    | append_singleton after call =>
      rw [← List.cons_append, ← List.append_assoc] at same
      obtain ⟨here, last⟩ := List.append_inj' same rfl
      cases List.singleton_inj.mp last
      rw [List.filterMap_append]
      show _ ∨ _ ∧ HELD_RELEASES ≤ ((_ ++ ([] : List Identity)).toFinset.erase _).card
      rw [List.append_nil]
      exact holding.handles before read url handle declared after here
  let_go key gone := by
    obtain ⟨read, url, id, declared, call, rest⟩ := holding.let_go key gone
    exact ⟨read, url, id, declared, List.mem_append_left _ call, rest⟩
  noted hash also listed := by
    have within : ∀ key ∈ s.other, key ∈ (s.note_other content_hash (id.map Subtype.val)).other := by
      intro key member
      exact Finset.mem_union_left _ (Finset.mem_insert_of_mem member)
    rcases List.mem_append.mp listed with earlier | now
    · obtain ⟨text, handles⟩ := holding.noted hash also earlier
      exact ⟨within _ text, fun handle is => within _ (handles handle is)⟩
    · cases List.mem_singleton.mp now
      refine ⟨Finset.mem_union_left _ (Finset.mem_insert_self _ _), ?_⟩
      rintro handle rfl
      exact Finset.mem_union_right _ (List.mem_toFinset.mpr List.mem_cons_self)

theorem hold_handles (holding : Holding calls s) {new : Option Handle}
    (apart : HandlesApart (calls ++ [Call.hold_release read url new declared])) {before after : List (Call D)} {other : Read D}
    {elsewhere : String} {handle : Handle} {also : Declared}
    (same : calls = before ++ Call.hold_release other elsewhere (some handle) also :: after) :
    (∃ held ∈ (s.hold_release read url (new.map Subtype.val) declared).releases,
        held.identity = .of D other elsewhere also ∧ handle.1 ∈ held.acquisition_ids) ∨
      handle.1 ∈ (s.hold_release read url (new.map Subtype.val) declared).let_go ∧
        HELD_RELEASES ≤ (((after ++ [Call.hold_release read url new declared]).filterMap Call.identity).toFinset.erase
          (.of D other elsewhere also)).card := by
  obtain ⟨identity, _, _⟩ := @merged_spec _ _ _ s read url declared (new.map Subtype.val) holding.own
  have listed : Call.hold_release other elsewhere (some handle) also ∈ calls := by
    rw [same]
    exact List.mem_append_right _ List.mem_cons_self
  -- Under its own identity the handle is with the release just held.
  have mine : handle.1 ∈ (s.merged read url (new.map Subtype.val) declared).acquisition_ids →
      Identity.of D other elsewhere also = .of D read url declared := by
    intro member
    obtain ⟨issued, spelled, now | ⟨third, there, terms, call, is⟩⟩ := merged_handle holding member
    · have one := Subtype.ext spelled
      subst one
      subst now
      have call := apart.same (List.mem_append_left _ listed) (List.mem_append_right _ List.mem_cons_self) rfl rfl
      cases call
      rfl
    · have one := Subtype.ext spelled
      subst one
      have two := apart.same (List.mem_append_left _ listed) (List.mem_append_left _ call) rfl rfl
      cases two
      exact is
  have taken : handle.1 ∈ (s.merged read url (new.map Subtype.val) declared).acquisition_ids →
      ∃ held ∈ (s.hold_release read url (new.map Subtype.val) declared).releases,
        held.identity = .of D other elsewhere also ∧ handle.1 ∈ held.acquisition_ids :=
    fun member => ⟨_, merged_held s, identity.trans (mine member).symm, member⟩
  have others : ∀ identities : List Identity, (identities ++ [Identity.of D read url declared]) =
      identities ++ [Call.hold_release read url new declared].filterMap Call.identity := fun _ => rfl
  rw [List.filterMap_append, ← others]
  rcases holding.handles before other elsewhere handle also after same with ⟨held, here, is, member⟩ | ⟨gone, many⟩
  · by_cases own : Identity.of D other elsewhere also = .of D read url declared
    · exact .inl (taken ((merged_covers holding.nodup).2 held here (is.trans own) _ member))
    · rcases hold_others s here (is.trans_ne own) with still | gone
      · exact .inl ⟨held, still, is, member⟩
      · by_cases still : held ∈ (s.hold_release read url (new.map Subtype.val) declared).releases
        · exact .inl ⟨held, still, is, member⟩
        · refine .inr ⟨gone _ (.inr member), ?_⟩
          have used : calls.filterMap Call.identity ++ [Identity.of D read url declared] = before.filterMap Call.identity ++
              Identity.of D other elsewhere also :: (after.filterMap Call.identity ++ [.of D read url declared]) := by
            rw [same, List.filterMap_append, List.append_assoc]
            rfl
          have positive : 0 < HELD_RELEASES := by decide
          have within := Recency.kept positive (before.filterMap Call.identity) (.of D other elsewhere also)
            (after.filterMap Call.identity ++ [.of D read url declared])
          rw [← used, Recency.run_snoc, ← holding.recent, ← @hold_recent _ _ _ s read url declared (new.map Subtype.val)
            holding.own] at within
          refine within.resolve_left ?_
          rintro ⟨older, newer, queue, _⟩
          have queued : Identity.of D other elsewhere also ∈
              (s.hold_release read url (new.map Subtype.val) declared).releases.map (·.identity) := by
            rw [queue]
            exact List.mem_append_right _ List.mem_cons_self
          obtain ⟨twin, there, too⟩ := List.mem_map.mp queued
          rcases mem_hold there with rfl | old
          · exact own (too.symm.trans identity)
          · rw [← List.inj_on_of_nodup_map holding.nodup old here (too.trans is.symm)] at still
            exact still there
  · by_cases member : handle.1 ∈ (s.merged read url (new.map Subtype.val) declared).acquisition_ids
    · exact .inl (taken member)
    · refine .inr ⟨stays_let_go gone ?_ member, many.trans (Finset.card_le_card ?_)⟩
      · rw [merged_hash holding]
        exact handle_not_hash handle read
      · apply Finset.erase_subset_erase
        rw [List.toFinset_append]
        exact Finset.subset_union_left

theorem hold_texts (holding : Holding calls s) {new : Option Handle} {other : Read D}
    (held : (∃ held ∈ s.releases, held.read.content_hash = other.content_hash) ∨ other.content_hash ∈ s.let_go) :
    (∃ held ∈ (s.hold_release read url (new.map Subtype.val) declared).releases,
        held.read.content_hash = other.content_hash) ∨
      other.content_hash ∈ (s.hold_release read url (new.map Subtype.val) declared).let_go := by
  have taken := @merged_hash _ _ _ _ s read url declared (new.map Subtype.val) holding
  by_cases text : read.content_hash = other.content_hash
  · exact .inl ⟨_, merged_held s, taken.trans text⟩
  rcases held with ⟨held, listed, is⟩ | gone
  · have apart : held.identity ≠ .of D read url declared := by
      intro same
      rw [holding.own held listed] at same
      exact text ((identity_inj same).2.2.2.2.2.symm.trans is)
    rcases hold_others s listed apart with still | gone
    · exact .inl ⟨held, still, is⟩
    · exact .inr (gone _ (.inl is.symm))
  · refine .inr (stays_let_go gone ?_ ?_)
    · rw [taken]
      exact fun same => text same.symm
    · intro member
      obtain ⟨handle, spelled, _⟩ := merged_handle holding member
      exact handle_not_hash handle other spelled

theorem hold_holding (holding : Holding calls s) {new : Option Handle}
    (apart : HandlesApart (calls ++ [Call.hold_release read url new declared])) :
    Holding (calls ++ [.hold_release read url new declared]) (s.hold_release read url (new.map Subtype.val) declared) where
  recent := by
    rw [hold_recent holding.own, holding.recent, List.filterMap_append]
    exact (Recency.run_snoc _ _ _).symm
  own held listed := by
    rcases mem_hold listed with rfl | old
    · exact (merged_spec holding.own).2.1
    · exact holding.own held old
  issued held listed key member := by
    rcases mem_hold listed with rfl | old
    · obtain ⟨handle, spelled, rfl | ⟨other, elsewhere, also, call, is⟩⟩ := merged_handle holding member
      · exact ⟨read, url, handle, declared, List.mem_append_right _ List.mem_cons_self, spelled,
          (merged_spec holding.own).1.symm⟩
      · exact ⟨other, elsewhere, handle, also, List.mem_append_left _ call, spelled,
          is.trans (merged_spec holding.own).1.symm⟩
    · obtain ⟨other, elsewhere, handle, also, call, rest⟩ := holding.issued held old key member
      exact ⟨other, elsewhere, handle, also, List.mem_append_left _ call, rest⟩
  texts other elsewhere id also listed := by
    rcases List.mem_append.mp listed with earlier | now
    · exact hold_texts holding (holding.texts other elsewhere id also earlier)
    · cases List.mem_singleton.mp now
      exact .inl ⟨_, merged_held s, merged_hash holding⟩
  handles before other elsewhere handle also after same := by
    cases after using List.reverseRecOn with
    | nil =>
      obtain ⟨_, last⟩ := List.append_inj' same rfl
      cases List.singleton_inj.mp last
      exact .inl ⟨_, merged_held s, (merged_spec holding.own).1, (merged_covers holding.nodup).1 _ rfl⟩
    | append_singleton after call =>
      rw [← List.cons_append, ← List.append_assoc] at same
      obtain ⟨here, last⟩ := List.append_inj' same rfl
      cases List.singleton_inj.mp last
      exact hold_handles holding apart here
  let_go key gone := by
    rcases let_go_names gone with before | ⟨held, either, named⟩
    · obtain ⟨other, elsewhere, id, also, call, rest⟩ := holding.let_go key before
      exact ⟨other, elsewhere, id, also, List.mem_append_left _ call, rest⟩
    rcases either with rfl | old
    · rcases named with text | member
      · rw [merged_hash holding] at text
        exact ⟨read, url, new, declared, List.mem_append_right _ List.mem_cons_self, .inl text⟩
      · obtain ⟨handle, spelled, rfl | ⟨other, elsewhere, also, call, _⟩⟩ := merged_handle holding member
        · exact ⟨read, url, _, declared, List.mem_append_right _ List.mem_cons_self, .inr ⟨handle, rfl, spelled⟩⟩
        · exact ⟨other, elsewhere, _, also, List.mem_append_left _ call, .inr ⟨handle, rfl, spelled⟩⟩
    · rcases named with text | member
      · obtain ⟨other, elsewhere, id, also, call, is⟩ := holding.called old
        rw [holding.own held old] at is
        exact ⟨other, elsewhere, id, also, List.mem_append_left _ call, .inl (text.trans (identity_inj is).2.2.2.2.2.symm)⟩
      · obtain ⟨other, elsewhere, handle, also, call, spelled, _⟩ := holding.issued held old key member
        exact ⟨other, elsewhere, _, also, List.mem_append_left _ call, .inr ⟨handle, rfl, spelled⟩⟩
  noted hash also listed := by
    rcases List.mem_append.mp listed with earlier | now
    · exact holding.noted hash also earlier
    · cases List.mem_singleton.mp now

theorem run_snoc (calls : List (Call D)) (call : Call D) : run (calls ++ [call]) = step (run calls) call := by
  rw [run, List.foldl_append]
  rfl

theorem run_holding (apart : HandlesApart calls) : Holding calls (run calls) := by
  induction calls using List.reverseRecOn with
  | nil =>
    refine ⟨rfl, fun _ => nofun, fun _ => nofun, fun _ _ _ _ => nofun, ?_, ?_, fun _ _ => nofun⟩
    · intro before read url handle declared after same
      cases before
      all_goals cases same
    · intro key gone
      exact (Finset.notMem_empty key gone).elim
  | append_singleton calls call ih =>
    have earlier : HandlesApart calls := apart.sublist ((List.sublist_append_left calls [call]).filterMap _)
    rw [run_snoc]
    cases call with
    | hold_release read url id declared => exact hold_holding (ih earlier) apart
    | note_other content_hash id => exact note_holding (ih earlier) content_hash id

/-! ### What a key names -/

theorem release_cases (s : Delivered D) (key : String) :
    (∃ held ∈ s.releases, key ∈ held.acquisition_ids ∧ s.release key = .ok held) ∨
      (∀ held ∈ s.releases, key ∉ held.acquisition_ids) ∧
        ((∃ held, s.releases.filter (·.read.content_hash = key) = [held] ∧ s.release key = .ok held) ∨
          (s.releases.filter (·.read.content_hash = key) = [] ∧
            s.release key = .error (if key ∈ s.let_go then .let_go else if key ∈ s.other then .other else .never)) ∨
          ∃ count handles, 1 < count ∧ (s.releases.filter (·.read.content_hash = key)).length = count ∧
            s.release key = .error (.ambiguous count handles)) := by
  cases found : s.releases.find? fun held => key ∈ held.acquisition_ids with
  | some held =>
    refine .inl ⟨held, List.mem_of_find?_eq_some found, by simpa using List.find?_some found, ?_⟩
    rw [Delivered.release, found]
  | none =>
    refine .inr ⟨fun held listed member => ?_, ?_⟩
    · have other := List.find?_eq_none.mp found held listed
      exact other (by simpa using member)
    · unfold Delivered.release
      rw [found]
      dsimp only
      generalize s.releases.filter (·.read.content_hash = key) = texts
      match texts with
      | [held] => exact .inl ⟨held, rfl, rfl⟩
      | [] => exact .inr (.inl ⟨rfl, rfl⟩)
      | first :: second :: rest =>
        refine .inr (.inr ⟨_, _, ?_, rfl, rfl⟩)
        rw [List.length_cons, List.length_cons]
        omega

theorem handle_answered (apart : HandlesApart calls) {before after : List (Call D)} {handle : Handle}
    (same : calls = before ++ Call.hold_release read url (some handle) declared :: after) :
    (∃ held, (run calls).release handle.1 = .ok held ∧ held.read.text = read.text ∧ held.read.sidecar = read.sidecar ∧
        held.read.verification = read.verification ∧ held.url = url ∧ held.declared = declared) ∨
      (run calls).release handle.1 = .error .let_go ∧
        HELD_RELEASES ≤ ((after.filterMap Call.identity).toFinset.erase (.of D read url declared)).card := by
  have holding := run_holding apart
  have listed : Call.hold_release read url (some handle) declared ∈ calls := by
    rw [same]
    exact List.mem_append_right _ List.mem_cons_self
  rcases release_cases (run calls) handle.1 with ⟨held, here, member, answer⟩ | ⟨unheld, cases_⟩
  · obtain ⟨other, elsewhere, issued, also, call, spelled, is⟩ := holding.issued held here _ member
    have one := Subtype.ext spelled
    subst one
    have two := apart.same listed call rfl rfl
    cases two
    rw [holding.own held here] at is
    obtain ⟨text, sidecar, verification, url, declared, _⟩ := identity_inj is
    exact .inl ⟨held, answer, text.symm, sidecar.symm, verification.symm, url.symm, declared.symm⟩
  · right
    have texts : (run calls).releases.filter (·.read.content_hash = handle.1) = [] := by
      rw [List.filter_eq_nil_iff]
      intro held _ is
      exact handle_not_hash handle held.read (of_decide_eq_true is).symm
    rcases holding.handles before read url handle declared after same with ⟨held, here, _, member⟩ | ⟨gone, many⟩
    · exact (unheld held here member).elim
    · refine ⟨?_, many⟩
      rcases cases_ with ⟨held, one, _⟩ | ⟨_, answer⟩ | ⟨count, handles, several, length, _⟩
      · rw [texts] at one
        cases one
      · rw [answer, if_pos gone]
      · rw [texts] at length
        rw [← length] at several
        cases several

theorem unheld_hash (apart : HandlesApart calls) {held : Held D} (listed : held ∈ (run calls).releases) (text : String) :
    D.sha256_digest text ∉ held.acquisition_ids := by
  intro member
  obtain ⟨_, _, handle, _, _, spelled, _⟩ := (run_holding apart).issued held listed _ member
  have colon := D.spelled text
  rw [← spelled] at colon
  exact handle.2 colon

theorem filter_text (held : List (Held D)) (text : String) :
    held.filter (·.read.content_hash = D.sha256_digest text) = held.filter (·.read.text = text) := by
  apply List.filter_congr
  intro held _
  rw [held.read.hashed, decide_eq_decide]
  exact D.text_injective.eq_iff

theorem noted_handle_answered (apart : HandlesApart calls) {content_hash : String} {handle : Handle}
    (listed : Call.note_other content_hash (some handle) ∈ calls) : (run calls).release handle.1 = .error .other := by
  have holding := run_holding apart
  have noted := (holding.noted _ _ listed).2 handle rfl
  have unissued : ∀ other elsewhere also, Call.hold_release other elsewhere (some handle) also ∉ calls := by
    intro other elsewhere also call
    cases apart.same call listed rfl rfl
  have unlet : handle.1 ∉ (run calls).let_go := by
    intro gone
    obtain ⟨other, elsewhere, id, also, call, text | ⟨issued, rfl, spelled⟩⟩ := holding.let_go _ gone
    · exact handle_not_hash handle other text
    · rw [Subtype.ext spelled] at call
      exact unissued _ _ _ call
  have texts : (run calls).releases.filter (·.read.content_hash = handle.1) = [] := by
    rw [List.filter_eq_nil_iff]
    intro held _ is
    exact handle_not_hash handle held.read (of_decide_eq_true is).symm
  rcases release_cases (run calls) handle.1 with ⟨held, here, member, _⟩ | ⟨_,
    ⟨held, one, _⟩ | ⟨_, answer⟩ | ⟨count, _, several, length, _⟩⟩
  · obtain ⟨other, elsewhere, issued, also, call, spelled, _⟩ := holding.issued held here _ member
    rw [Subtype.ext spelled] at call
    exact (unissued _ _ _ call).elim
  · rw [texts] at one
    cases one
  · rw [answer, if_neg unlet, if_pos noted]
  · rw [texts] at length
    rw [← length] at several
    cases several

theorem text_answered (apart : HandlesApart calls) {text : String} {held : Held D}
    (answer : (run calls).release (D.sha256_digest text) = .ok held) :
    (run calls).releases.filter (·.read.text = text) = [held] := by
  rw [← filter_text]
  rcases release_cases (run calls) (D.sha256_digest text) with
    ⟨_, here, member, _⟩ | ⟨_, ⟨other, one, is⟩ | ⟨_, is⟩ | ⟨_, _, _, _, is⟩⟩
  · exact (unheld_hash apart here text member).elim
  · rw [is] at answer
    cases answer
    exact one
  · rw [is] at answer
    cases answer
  · rw [is] at answer
    cases answer

theorem hash_answered (apart : HandlesApart calls) {id : Option Handle}
    (listed : Call.hold_release read url id declared ∈ calls) :
    (∃ held, held.read.text = read.text ∧ (run calls).release read.content_hash = .ok held) ∨
      (∃ count handles, 1 < count ∧ ((run calls).releases.filter (·.read.text = read.text)).length = count ∧
        (run calls).release read.content_hash = .error (.ambiguous count handles)) ∨
      (run calls).releases.filter (·.read.text = read.text) = [] ∧
        (run calls).release read.content_hash = .error .let_go := by
  rcases release_cases (run calls) read.content_hash with
    ⟨_, here, member, _⟩ | ⟨_, ⟨other, one, is⟩ | ⟨none_, is⟩ | ⟨count, handles, several, length, is⟩⟩
  · rw [read.hashed] at member
    exact (unheld_hash apart here _ member).elim
  · rw [read.hashed, filter_text] at one
    have member : other ∈ (run calls).releases.filter (·.read.text = read.text) := by
      rw [one]
      exact List.mem_cons_self
    exact .inl ⟨other, of_decide_eq_true (List.mem_filter.mp member).2, is⟩
  · right
    right
    have gone : read.content_hash ∈ (run calls).let_go := by
      refine ((run_holding apart).texts read url id declared listed).resolve_left ?_
      rintro ⟨held, here, same⟩
      rw [List.filter_eq_nil_iff] at none_
      exact none_ held here (decide_eq_true same)
    rw [is, if_pos gone]
    rw [read.hashed, filter_text] at none_
    exact ⟨none_, rfl⟩
  · rw [read.hashed, filter_text] at length
    exact .inr (.inl ⟨count, handles, several, length, is⟩)

theorem noted_hash_answered (apart : HandlesApart calls) {content_hash : String} {id : Option Handle}
    (listed : Call.note_other content_hash id ∈ calls) : (run calls).release content_hash ≠ .error .never := by
  have noted := ((run_holding apart).noted _ _ listed).1
  intro never
  rcases release_cases (run calls) content_hash with ⟨_, _, _, is⟩ | ⟨_, ⟨_, _, is⟩ | ⟨_, is⟩ | ⟨_, _, _, _, is⟩⟩
  · rw [is] at never
    cases never
  · rw [is] at never
    cases never
  · rw [is, if_pos noted] at never
    split at never
    all_goals cases never
  · rw [is] at never
    cases never

end

structure Answered (calls : List (Call D)) : Prop where
  few : (run calls).releases.length ≤ HELD_RELEASES
  distinct : ((run calls).releases.map (·.identity)).Nodup
  own : ∀ held ∈ (run calls).releases, held.identity = .of D held.read held.url held.declared
  kept : ∀ before read url id declared after, calls = before ++ .hold_release read url id declared :: after →
    (∃ held ∈ (run calls).releases, held.identity = .of D read url declared) ∨
      HELD_RELEASES ≤ ((after.filterMap Call.identity).toFinset.erase (.of D read url declared)).card
  handle : ∀ before read url handle declared after, calls = before ++ .hold_release read url (some handle) declared :: after →
    (∃ held, (run calls).release handle.1 = .ok held ∧ held.read.text = read.text ∧ held.read.sidecar = read.sidecar ∧
        held.read.verification = read.verification ∧ held.url = url ∧ held.declared = declared) ∨
      (run calls).release handle.1 = .error .let_go ∧
        HELD_RELEASES ≤ ((after.filterMap Call.identity).toFinset.erase (.of D read url declared)).card
  text : ∀ text held, (run calls).release (D.sha256_digest text) = .ok held →
    (run calls).releases.filter (·.read.text = text) = [held]
  hash : ∀ read url id declared, Call.hold_release read url id declared ∈ calls →
    (∃ held, held.read.text = read.text ∧ (run calls).release read.content_hash = .ok held) ∨
      (∃ count handles, 1 < count ∧ ((run calls).releases.filter (·.read.text = read.text)).length = count ∧
        (run calls).release read.content_hash = .error (.ambiguous count handles)) ∨
      (run calls).releases.filter (·.read.text = read.text) = [] ∧
        (run calls).release read.content_hash = .error .let_go
  noted : ∀ content_hash id, Call.note_other content_hash id ∈ calls →
    (run calls).release content_hash ≠ .error .never ∧
      ∀ handle, id = some handle → (run calls).release handle.1 = .error .other

/-- Whatever was delivered, in any order, a key of one delivery answers for no other. -/
theorem deliveries_answered (calls : List (Call D)) (apart : HandlesApart calls) : Answered calls where
  few := by
    have length := congrArg List.length (run_holding apart).recent
    rw [List.length_map] at length
    rw [length]
    exact Recency.run_length _ _
  distinct := (run_holding apart).nodup
  own := (run_holding apart).own
  kept before read url id declared after same := by
    have positive : 0 < HELD_RELEASES := by decide
    have used : calls.filterMap Call.identity = before.filterMap Call.identity ++
        Identity.of D read url declared :: after.filterMap Call.identity := by
      rw [same, List.filterMap_append]
      rfl
    have within := Recency.kept positive (before.filterMap Call.identity) (.of D read url declared)
      (after.filterMap Call.identity)
    rw [← used, ← (run_holding apart).recent] at within
    refine within.imp_left ?_
    rintro ⟨older, newer, queue, _⟩
    have queued : Identity.of D read url declared ∈ (run calls).releases.map (·.identity) := by
      rw [queue]
      exact List.mem_append_right _ List.mem_cons_self
    exact List.mem_map.mp queued
  handle before read url handle declared after same := handle_answered apart same
  text text held answer := text_answered apart answer
  hash read url id declared listed := hash_answered apart listed
  noted content_hash id listed := by
    refine ⟨noted_hash_answered apart listed, ?_⟩
    rintro handle rfl
    exact noted_handle_answered apart listed

end

def spelledOut : Digests String String where
  sha256_digest text := String.ofList (':' :: text.toList)
  sidecar_digest sidecar := sidecar
  declared_digest declared := declared
  spelled text := by
    rw [String.toList_ofList]
    exact List.mem_cons_self
  text_injective one other same := by
    have chars := congrArg String.toList same
    rw [String.toList_ofList, String.toList_ofList] at chars
    exact String.toList_inj.mp (List.cons.inj chars).2
  sidecar_injective _ _ same := same
  declared_injective _ _ same := same

def fetches : List (Call spelledOut) :=
  let read : Read spelledOut := ⟨"text", "sidecar", .verified, spelledOut.sha256_digest "text", rfl⟩
  [.hold_release read "https://example.com/a" (some ⟨"1", by decide⟩) "terms",
    .note_other (spelledOut.sha256_digest "page") (some ⟨"2", by decide⟩),
    .hold_release read "https://example.com/a" (some ⟨"3", by decide⟩) "terms"]

theorem deliveries_answered_fetches : Answered fetches := by
  apply deliveries_answered
  refine List.Nodup.of_map Subtype.val ?_
  show ["1", "2", "3"].Nodup
  decide

end CommonMeasure.Display
