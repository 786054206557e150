import CommonMeasure.Integrity.Answers
import CommonMeasure.Json.Strings

/-!
# What crosses from a sidecar

Only fixed keys with numbers, letters and identifiers under them cross into the record.
-/

namespace CommonMeasure.Integrity

open Json

namespace Sidecar

def MAX_CHUNKS : Nat := 4096

inductive Fault where
  | manifest_unavailable | manifest_invalid | protocol_unsupported | runtime_unsupported | network_invalid
  | artefact_unavailable | artefact_digest_mismatch | timeout_invalid | configuration_invalid | summary_unavailable
  | summary_invalid | summary_threshold_missing | threshold_required | processor_egress_refused | credential_unset
  | process_groups_unavailable | batch_too_large | start_failed | exited | output_limit | protocol_malformed
  | protocol_extra_output | hello_timeout | hello_invalid | write_failed | batch_timeout | answer_order_invalid
  | bye_invalid | exit_failed | answer_malformed | item_error | output_dropped | cost_unknown
  deriving DecidableEq

def Fault.as_str : Fault → String
  | .manifest_unavailable => "sidecar_manifest_unavailable"
  | .manifest_invalid => "sidecar_manifest_invalid"
  | .protocol_unsupported => "sidecar_protocol_unsupported"
  | .runtime_unsupported => "sidecar_runtime_unsupported"
  | .network_invalid => "sidecar_network_invalid"
  | .artefact_unavailable => "sidecar_artefact_unavailable"
  | .artefact_digest_mismatch => "artefact_digest_mismatch"
  | .timeout_invalid => "sidecar_timeout_invalid"
  | .configuration_invalid => "sidecar_configuration_invalid"
  | .summary_unavailable => "sidecar_summary_unavailable"
  | .summary_invalid => "sidecar_summary_invalid"
  | .summary_threshold_missing => "sidecar_summary_threshold_missing"
  | .threshold_required => "sidecar_threshold_required"
  | .processor_egress_refused => "processor_egress_refused"
  | .credential_unset => "sidecar_credential_unset"
  | .process_groups_unavailable => "sidecar_process_groups_unavailable"
  | .batch_too_large => "sidecar_batch_too_large"
  | .start_failed => "sidecar_start_failed"
  | .exited => "sidecar_exited"
  | .output_limit => "sidecar_output_limit"
  | .protocol_malformed => "sidecar_protocol_malformed"
  | .protocol_extra_output => "sidecar_protocol_extra_output"
  | .hello_timeout => "sidecar_hello_timeout"
  | .hello_invalid => "sidecar_hello_invalid"
  | .write_failed => "sidecar_write_failed"
  | .batch_timeout => "sidecar_batch_timeout"
  | .answer_order_invalid => "sidecar_answer_order_invalid"
  | .bye_invalid => "sidecar_bye_invalid"
  | .exit_failed => "sidecar_exit_failed"
  | .answer_malformed => "sidecar_answer_malformed"
  | .item_error => "sidecar_item_error"
  | .output_dropped => "sidecar_output_dropped"
  | .cost_unknown => "sidecar_cost_unknown"

/-- What the boundary takes from the platform besides: numbers as `f64`, canonical JSON and the parser of addresses. -/
structure Boundary (F : Type) extends Platform F where
  asF64 : Number → F
  /-- Finite and from nought to one. -/
  probability : F → Bool
  half : F
  canonical_json : Value → List Char
  /-- The origin of an address, where it has one. -/
  origin : String → Option String

def identifierByte (c : Char) : Bool := c.isAlphanum || c ∈ ['_', '.', '/', ':', '~', '+', '-']

def identifier (s : String) : Bool := s ≠ "" && byteLen s.toList ≤ 160 && s.toList.all identifierByte

/-! ### Details -/

def isNumber : Value → Bool
  | .number _ => true
  | _ => false

def isNull : Value → Bool
  | .null => true
  | _ => false

def isLetter : Value → Bool
  | .string s => s = "A" || s = "B" || s = "C"
  | _ => false

def NUMERIC : List String :=
  ["p_raw", "chunks", "prompt_tokens", "completion_tokens", "input_tokens", "output_tokens", "latency_ms", "threshold",
    "temperature", "contradiction_threshold", "attempts", "requests", "errors", "peak_memory_mb", "peak_memory_bytes",
    "tokens", "probability_sum"]

def PROBABILITIES : List String := ["supports", "absent", "contradicts", "A", "B", "C"]

def array_limit (members : List (String × Value)) : Nat :=
  min (((Value.object members).get "chunks").asU64.getD 64) MAX_CHUNKS

section

variable {F : Type} (platform : Boundary F)

def isProbability : Value → Bool
  | .number n => platform.probability (platform.asF64 n)
  | _ => false

def isArrayOf (limit : Nat) (allowed : Value → Bool) : Value → Bool
  | .array items => items.length ≤ limit && items.all allowed
  | _ => false

def keep (value : Value) (allowed : Bool) : Option Value × List Fault :=
  if allowed then (some value, []) else (none, [.output_dropped])

def filter_probabilities : Value → Option Value × List Fault
  | .object members =>
    keep (.object (entries (.object members))) ((entries (.object members)).all fun (name, held) =>
      name ∈ PROBABILITIES && isProbability platform held)
  | _ => (none, [.output_dropped])

def filter_decisions (limit : Nat) : Option (Value → Value × List Fault) → Value → Option Value × List Fault
  | some filter, .array items =>
    if items.length ≤ limit then
      (some (.array (items.map fun item => (filter item).1)), items.flatMap fun item => (filter item).2)
    else (none, [.output_dropped])
  | _, _ => (none, [.output_dropped])

def filter_member (limit : Nat) (decision : Option (Value → Value × List Fault)) (key : String) (value : Value) :
    Option Value × List Fault :=
  if key ∈ NUMERIC then keep value (isNumber value || isNull value)
  else if key = "p_per_chunk" then keep value (isArrayOf limit isNumber value)
  else if key = "bounded_letters" then keep value (isArrayOf limit isLetter value)
  else if key = "probabilities" then filter_probabilities platform value
  else if key = "decisions" then filter_decisions limit decision value
  else (none, [.output_dropped])

def filter_members (decision : Option (Value → Value × List Fault)) (v : Value) : Value × List Fault :=
  match v with
  | .object _ =>
    let filtered (member : String × Value) : Option Value × List Fault :=
      filter_member platform (array_limit (entries v)) decision member.1 member.2
    (.object ((entries v).filterMap fun member => (filtered member).1.map (member.1, ·)),
      (entries v).flatMap fun member => (filtered member).2)
  | .null => (.object [], [])
  | _ => (.object [], [.output_dropped])

def filter_detail_level : Bool → Value → Value × List Fault
  | false => filter_members platform none
  | true => filter_members platform (some (filter_members platform none))

def filter_detail (v : Value) : Value × List Fault := filter_detail_level platform true v

def IDENTITIES : List String := ["model", "family", "device"]

def identity (key s : String) : Bool :=
  identifier s &&
    if key = "device" then byteLen s.toList ≤ 32 && s.toList.all fun c => c ∉ ['/', '~']
    else byteLen s.toList ≤ 64 && s.toList.head?.all fun c => c ∉ ['/', '~', '.']

def filter_identity (key : String) (value : Value) : Option Value × List Fault :=
  match value with
  | .string s => if identity key s then (some value, []) else (none, [.output_dropped])
  | _ => (none, [.output_dropped])

def filter_endpoint (value : Value) : Option Value × List Fault :=
  match value.asStr.bind platform.origin with
  | some origin => (some (.string origin), [])
  | none => (none, [.output_dropped])

def recorded (v : Value) (key name : String) (filter : Value → Option Value × List Fault) :
    List (String × Value) × List Fault :=
  match (entries v).find? (·.1 = key) with
  | none => ([], [])
  | some (_, value) => ((filter value).1.toList.map (name, ·), (filter value).2)

def numeric : Value → Value
  | .object members =>
    .object ((entries (.object members)).filter fun member => member.1 ∉ IDENTITIES ++ ["endpoint", "questions"])
  | other => other

def filter_hello (v : Value) : Value × List Fault :=
  let detail := filter_detail platform (numeric v)
  let identities := IDENTITIES.map fun key => recorded v key key (filter_identity key)
  let endpoint := recorded v "endpoint" "endpoint_origin" (filter_endpoint platform)
  (.object (membersOf detail.1 ++ identities.flatMap Prod.fst ++ [("questions", v.get "questions")] ++ endpoint.1),
    detail.2 ++ identities.flatMap Prod.snd ++ endpoint.2)

def DETAIL_KEYS : List String :=
  NUMERIC ++ PROBABILITIES ++ ["p_per_chunk", "bounded_letters", "probabilities", "decisions"]

def detailAllowed : Allowed where
  key name := name ∈ DETAIL_KEYS
  string s := s ∈ ["A", "B", "C"]
  length n := n ≤ MAX_CHUNKS

inductive Preserved : Value → Value → Prop
  | copied {v} : Preserved v v
  | null : Preserved .null (.object [])
  | array {items : List Value} {filter : Value → Value} : (∀ item ∈ items, Preserved item (filter item)) →
    Preserved (.array items) (.array (items.map filter))
  | object {members out : List (String × Value)} (kept : String × Value → Value) :
    (∀ member ∈ entries (.object members), (member.1, kept member) ∈ out) →
    (∀ member ∈ entries (.object members), Preserved member.2 (kept member)) → Preserved (.object members) (.object out)

variable {limit : Nat} {decision : Option (Value → Value × List Fault)} {key : String} {value v : Value}

theorem Preserved.member {out : Value} {member : String × Value} (preserved : Preserved v out) (listed : member ∈ entries v) :
    ∃ kept, (member.1, kept) ∈ membersOf out ∧ Preserved member.2 kept := by
  cases preserved with
  | copied => exact ⟨member.2, mem_entries listed, .copied⟩
  | null | array => cases listed
  | object kept inside preserved => exact ⟨kept member, inside member listed, preserved member listed⟩

theorem array_limit_le (members : List (String × Value)) : array_limit members ≤ MAX_CHUNKS := Nat.min_le_right _ _

inductive Crosses (limit : Nat) (decision : Option (Value → Value × List Fault)) : Value → Option Value × List Fault → Prop
  | dropped {value : Value} : Crosses limit decision value (none, [.output_dropped])
  | copied {value kept : Value} {gaps : List Fault} : kept.Within detailAllowed → Preserved value kept →
    Crosses limit decision value (some kept, gaps)
  | decisions {items : List Value} {filter : Value → Value × List Fault} : decision = some filter → items.length ≤ limit →
    Crosses limit decision (.array items)
      (some (.array (items.map fun item => (filter item).1)), items.flatMap fun item => (filter item).2)

theorem keep_crosses {kept : Value} {allowed : Bool} (within : allowed = true → kept.Within detailAllowed)
    (preserved : allowed = true → Preserved value kept) : Crosses limit decision value (keep kept allowed) := by
  cases allowed with
  | false => exact .dropped
  | true => exact .copied (within rfl) (preserved rfl)

theorem within_isNumber (number : isNumber value = true) : value.Within detailAllowed := by
  cases value with
  | number => exact .number
  | _ => cases number

theorem within_isNull (null : isNull value = true) : value.Within detailAllowed := by
  cases value with
  | null => exact .null
  | _ => cases null

theorem within_isLetter (letter : isLetter value = true) : value.Within detailAllowed := by
  cases value with
  | string s => exact .string (by simpa [isLetter, detailAllowed, or_assoc] using letter)
  | _ => cases letter

theorem within_isArrayOf (short : limit ≤ MAX_CHUNKS) {allowed : Value → Bool} (held : isArrayOf limit allowed value = true)
    (within : ∀ item, allowed item = true → item.Within detailAllowed) : value.Within detailAllowed := by
  cases value with
  | array items =>
    simp only [isArrayOf, Bool.and_eq_true, decide_eq_true_eq, List.all_eq_true] at held
    exact .array (Nat.le_trans held.1 short) fun item listed => within item (held.2 item listed)
  | _ => cases held

theorem filter_probabilities_crosses : Crosses limit decision value (filter_probabilities platform value) := by
  cases value with
  | object members =>
    refine keep_crosses (fun held => Value.within_object.mpr fun member listed => ?_) fun _ =>
      .object Prod.snd (fun _ listed => listed) fun _ _ => .copied
    have allowed := List.all_eq_true.mp held member listed
    simp only [Bool.and_eq_true, decide_eq_true_eq] at allowed
    refine ⟨List.mem_append_left _ (List.mem_append_right _ allowed.1), ?_⟩
    cases value : member.2 with
    | number => exact .number
    | _ =>
      rw [value] at allowed
      cases allowed.2
  | _ => exact .dropped

theorem filter_decisions_crosses : Crosses limit decision value (filter_decisions limit decision value) := by
  unfold filter_decisions
  split
  · split
    · rename_i short
      exact .decisions rfl short
    · exact .dropped
  · exact .dropped

theorem filter_member_crosses (short : limit ≤ MAX_CHUNKS) :
    Crosses limit decision value (filter_member platform limit decision key value) := by
  unfold filter_member
  split_ifs
  · refine keep_crosses (fun held => ?_) fun _ => .copied
    rcases Bool.or_eq_true _ _ ▸ held with number | null
    · exact within_isNumber number
    · exact within_isNull null
  · exact keep_crosses (fun held => within_isArrayOf short held fun _ => within_isNumber) fun _ => .copied
  · exact keep_crosses (fun held => within_isArrayOf short held fun _ => within_isLetter) fun _ => .copied
  · exact filter_probabilities_crosses platform
  · exact filter_decisions_crosses
  · exact .dropped

theorem filter_member_key (held : (filter_member platform limit decision key value).1.isSome) : key ∈ DETAIL_KEYS := by
  unfold filter_member at held
  split_ifs at held with numeric
  · exact List.mem_append_left _ (List.mem_append_left _ numeric)
  all_goals simp_all [DETAIL_KEYS]

variable {platform}

theorem mem_filter_members {members : List (String × Value)} {kept : Value} :
    (key, kept) ∈ membersOf (filter_members platform decision (.object members)).1 ↔
      ∃ value, (key, value) ∈ entries (.object members) ∧
        (filter_member platform (array_limit (entries (.object members))) decision key value).1 = some kept := by
  simp only [filter_members, membersOf, List.mem_filterMap, Option.map_eq_some_iff, Prod.mk.injEq]
  constructor
  · rintro ⟨⟨key, value⟩, listed, kept, held, rfl, rfl⟩
    exact ⟨value, listed, held⟩
  · rintro ⟨value, listed, held⟩
    exact ⟨(key, value), listed, kept, held, rfl, rfl⟩

theorem filter_members_within (decided : ∀ filter, decision = some filter → ∀ item, (filter item).1.Within detailAllowed)
    (v : Value) : (filter_members platform decision v).1.Within detailAllowed := by
  cases v with
  | object members =>
    refine Value.within_object.mpr fun (key, kept) listed => ?_
    obtain ⟨value, _, held⟩ := mem_filter_members.mp listed
    refine ⟨filter_member_key platform (Option.isSome_iff_exists.mpr ⟨kept, held⟩), ?_⟩
    have crosses := @filter_member_crosses _ platform _ decision key value (array_limit_le (entries (.object members)))
    generalize filter_member platform (array_limit (entries (.object members))) decision key value = filtered at held crosses
    cases crosses with
    | dropped => cases held
    | copied within _ =>
      cases held
      exact within
    | decisions is short =>
      cases held
      refine .array (by rw [List.length_map]; exact Nat.le_trans short (array_limit_le _)) fun item listed => ?_
      obtain ⟨item, _, rfl⟩ := List.mem_map.mp listed
      exact decided _ is item
  | _ => exact Value.within_object_nil

theorem filter_members_preserved (decided : ∀ filter, decision = some filter → ∀ item,
    .output_dropped ∈ (filter item).2 ∨ Preserved item (filter item).1) (v : Value) :
    .output_dropped ∈ (filter_members platform decision v).2 ∨ Preserved v (filter_members platform decision v).1 := by
  refine or_iff_not_imp_left.mpr fun silent => ?_
  cases v with
  | null => exact .null
  | object members =>
    have each : ∀ member ∈ entries (.object members), ∃ kept, (member.1, kept) ∈
        membersOf (filter_members platform decision (.object members)).1 ∧ Preserved member.2 kept := by
      intro (key, value) listed
      have quiet : .output_dropped ∉
          (filter_member platform (array_limit (entries (.object members))) decision key value).2 :=
        fun dropped => silent (List.mem_flatMap.mpr ⟨_, listed, dropped⟩)
      have crosses := @filter_member_crosses _ platform _ decision key value (array_limit_le (entries (.object members)))
      cases filtered : filter_member platform (array_limit (entries (.object members))) decision key value with
      | mk kept gaps =>
        rw [filtered] at crosses quiet
        cases crosses with
        | dropped => exact absurd List.mem_cons_self quiet
        | copied _ preserved => exact ⟨_, mem_filter_members.mpr ⟨value, listed, congrArg Prod.fst filtered⟩, preserved⟩
        | decisions is _ =>
          refine ⟨_, mem_filter_members.mpr ⟨_, listed, congrArg Prod.fst filtered⟩, .array fun item held => ?_⟩
          exact (decided _ is item).resolve_left fun dropped => quiet (List.mem_flatMap.mpr ⟨item, held, dropped⟩)
    have : Nonempty Value := ⟨.null⟩
    choose! kept inside preserved using each
    exact .object kept inside preserved
  | _ => exact absurd List.mem_cons_self silent

theorem filter_detail_within (v : Value) : (filter_detail platform v).1.Within detailAllowed := by
  refine filter_members_within (fun filter is item => ?_) v
  obtain rfl := Option.some.inj is
  exact filter_members_within (fun _ is => by cases is) item

theorem filter_detail_preserved (v : Value) :
    .output_dropped ∈ (filter_detail platform v).2 ∨ Preserved v (filter_detail platform v).1 := by
  refine filter_members_preserved (fun filter is item => ?_) v
  obtain rfl := Option.some.inj is
  exact filter_members_preserved (fun _ is => by cases is) item

variable (platform)

def helloAllowed (v : Value) (questions : List String) : Allowed where
  key name := name ∈ DETAIL_KEYS ++ IDENTITIES ++ ["questions", "endpoint_origin"]
  string s := s ∈ ["A", "B", "C"] ∨ s ∈ questions ∨ (∃ key ∈ IDENTITIES, v.get key = .string s ∧ identity key s = true) ∨
    ∃ endpoint, v.get "endpoint" = .string endpoint ∧ platform.origin endpoint = some s
  length n := n ≤ MAX_CHUNKS

inductive HelloPreserved (out : Value) : String × Value → Prop
  | member {key : String} {value kept : Value} : (key, kept) ∈ membersOf out → Preserved value kept →
    HelloPreserved out (key, value)
  | endpoint {endpoint origin : String} : platform.origin endpoint = some origin →
    ("endpoint_origin", .string origin) ∈ membersOf out → HelloPreserved out ("endpoint", .string endpoint)

variable {platform}

theorem recorded_of_mem {name : String} {filter : Value → Option Value × List Fault} (listed : (key, value) ∈ entries v) :
    recorded v key name filter = ((filter value).1.toList.map (name, ·), (filter value).2) := by
  rw [recorded]
  cases found : (entries v).find? (·.1 = key) with
  | none => simpa using List.find?_eq_none.mp found _ listed
  | some member =>
    have named := List.find?_some found
    obtain rfl : member.1 = key := by simpa using named
    have same := get_of_mem_entries (List.mem_of_find?_eq_some found)
    rw [get_of_mem_entries listed] at same
    obtain rfl : value = member.2 := same
    rfl

theorem recorded_mem {name : String} {filter : Value → Option Value × List Fault} {member : String × Value}
    (listed : member ∈ (recorded v key name filter).1) :
    member.1 = name ∧ (filter (v.get key)).1 = some member.2 := by
  rw [recorded] at listed
  cases found : (entries v).find? (·.1 = key) with
  | none =>
    rw [found] at listed
    cases listed
  | some held =>
    rw [found] at listed
    have named := List.find?_some found
    obtain rfl : held.1 = key := by simpa using named
    rw [get_of_mem_entries (List.mem_of_find?_eq_some found)]
    obtain ⟨value, is, rfl⟩ := List.mem_map.mp listed
    exact ⟨rfl, by simpa using is⟩

theorem filter_hello_within {questions : List String} (asked : v.get "questions" = strings questions)
    (few : questions.length ≤ MAX_CHUNKS) : (filter_hello platform v).1.Within (helloAllowed platform v questions) := by
  rw [filter_hello]
  dsimp only
  simp only [Value.within_object_append]
  refine ⟨⟨⟨?_, ?_⟩, ?_⟩, ?_⟩
  · have detail : (filter_detail platform (numeric v)).1.Within (helloAllowed platform v questions) :=
      (filter_detail_within _).mono (fun _ listed => List.mem_append_left _ (List.mem_append_left _ listed))
        (fun _ => .inl) fun _ => id
    exact detail.members
  · refine Value.within_object.mpr fun member listed => ?_
    obtain ⟨_, from_, listed⟩ := List.mem_flatMap.mp listed
    obtain ⟨key, known, rfl⟩ := List.mem_map.mp from_
    obtain ⟨rfl, held⟩ := recorded_mem listed
    refine ⟨List.mem_append_left _ (List.mem_append_right _ known), ?_⟩
    cases got : v.get member.1 with
    | string s =>
      rw [got, filter_identity] at held
      split at held
      · rename_i bounded
        rw [← Option.some.inj held]
        exact .string (.inr (.inr (.inl ⟨_, known, got, bounded⟩)))
      · cases held
    | _ =>
      rw [got] at held
      cases held
  · rw [asked]
    refine Value.within_object.mpr fun member listed => ?_
    obtain rfl := List.mem_singleton.mp listed
    refine ⟨by simp [helloAllowed], .array (by rwa [List.length_map]) fun item listed => ?_⟩
    obtain ⟨s, asked, rfl⟩ := List.mem_map.mp listed
    exact .string (.inr (.inl asked))
  · refine Value.within_object.mpr fun member listed => ?_
    obtain ⟨named, held⟩ := recorded_mem listed
    refine ⟨by simp [named, helloAllowed], ?_⟩
    rw [filter_endpoint] at held
    split at held
    · rename_i origin has
      obtain ⟨endpoint, is, has⟩ := Option.bind_eq_some_iff.mp has
      rw [← Option.some.inj held]
      refine .string (.inr (.inr (.inr ⟨endpoint, ?_, has⟩)))
      cases got : v.get "endpoint" with
      | string s =>
        rw [got] at is
        rw [Option.some.inj is]
      | _ =>
        rw [got] at is
        cases is
    · cases held

theorem filter_hello_preserved (v : Value) {member : String × Value} (listed : member ∈ entries v) :
    .output_dropped ∈ (filter_hello platform v).2 ∨ HelloPreserved platform (filter_hello platform v).1 member := by
  refine or_iff_not_imp_left.mpr fun silent => ?_
  obtain ⟨key, value⟩ := member
  simp only [filter_hello, List.mem_append, not_or] at silent
  obtain ⟨⟨detailed, identified⟩, placed⟩ := silent
  by_cases identity : key ∈ IDENTITIES
  · have quiet : .output_dropped ∉ (recorded v key key (filter_identity key)).2 := fun dropped =>
      identified (List.mem_flatMap.mpr ⟨_, List.mem_map_of_mem identity, dropped⟩)
    rw [recorded_of_mem listed] at quiet
    have kept : (key, value) ∈ (recorded v key key (filter_identity key)).1 := by
      rw [recorded_of_mem listed]
      unfold filter_identity at quiet ⊢
      split
      · split <;> simp_all
      · simp_all
    refine @HelloPreserved.member _ _ _ _ _ value ?_ .copied
    simp only [filter_hello, membersOf, List.mem_append]
    exact .inl (.inl (.inr (List.mem_flatMap.mpr ⟨_, List.mem_map_of_mem identity, kept⟩)))
  by_cases endpoint : key = "endpoint"
  · subst endpoint
    rw [recorded_of_mem listed] at placed
    cases value with
    | string endpoint =>
      cases has : platform.origin endpoint with
      | none => simp [filter_endpoint, Value.asStr, has] at placed
      | some origin =>
        refine .endpoint has ?_
        simp only [filter_hello, membersOf, List.mem_append, recorded_of_mem listed]
        exact .inr (by simp [filter_endpoint, Value.asStr, has])
    | _ => simp [filter_endpoint, Value.asStr] at placed
  by_cases questions : key = "questions"
  · subst questions
    refine @HelloPreserved.member _ _ _ _ _ (v.get "questions") ?_ (by rw [get_of_mem_entries listed]; exact .copied)
    simp [filter_hello, membersOf]
  · have inside : (key, value) ∈ entries (numeric v) := by
      cases v with
      | object members =>
        rw [numeric, entries_of_nodup ((nodup_entries _).sublist (List.filter_sublist.map _)), List.mem_filter]
        exact ⟨listed, by simp_all⟩
      | _ => cases listed
    obtain ⟨kept, held, preserved⟩ := ((filter_detail_preserved (numeric v)).resolve_left detailed).member inside
    refine .member ?_ preserved
    simp only [filter_hello, membersOf, List.mem_append]
    exact .inl (.inl (.inl held))

end

end Sidecar

end CommonMeasure.Integrity
