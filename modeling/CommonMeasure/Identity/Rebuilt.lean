import CommonMeasure.Identity.Signature

namespace CommonMeasure.Identity

open Http

def isQuotedName (name : Bytes) : Bool := name ≠ [] && name.all fun b => b ≠ quoteMark && b ≠ 32 && b ≠ 41

def unquoted (identifier : Bytes) : Option Bytes :=
  match identifier with
  | [] => none
  | first :: rest =>
    if first = quoteMark ∧ rest.getLast? = some quoteMark ∧ isQuotedName rest.dropLast then some rest.dropLast else none

def stated_components (params : Bytes) : Option (List Bytes) :=
  match params with
  | [] => none
  | first :: rest =>
    if first = 40 ∧ 41 ∈ rest then ((rest.takeWhile (· ≠ 41)).splitOn 32).mapM unquoted else none

def component_value (message : Request) (name : Bytes) : Option Bytes :=
  if name = utf8 "@method" then some message.method
  else if name = utf8 "@authority" then
    match valuesOf message.headers (utf8 "Host") with
    | [host] => some (host.map lower)
    | _ => none
  else if name = utf8 "@path" then
    let path := message.target.takeWhile (· ≠ 63)
    some (if path = [] then utf8 "/" else path)
  else match valuesOf message.headers name with
    | [] => none
    | values => some (List.intercalate (utf8 ", ") (values.map trimOws))

def stated_params (message : Request) : Option Bytes :=
  match valuesOf message.headers SIGNATURE_INPUT with
  | [input] => if SIGNATURE_LABEL ++ utf8 "=" <+: input then some (input.drop (SIGNATURE_LABEL ++ utf8 "=").length) else none
  | _ => none

/-- What a message states, as a verifier reads it: the covered names, each once, with their values, and the parameters. -/
def stated (message : Request) : Option (List (Bytes × Bytes) × Bytes) := do
  let params ← stated_params message
  let names ← stated_components params
  if names.Nodup then
    let covered ← names.mapM fun name => (component_value message name).map (Prod.mk name)
    pure (covered, params)
  else none

def identified (covered : Bytes × Bytes) : Bytes × Bytes := (component covered.1, covered.2)

def rebuilt (message : Request) : Option Bytes :=
  (stated message).map fun (covered, params) =>
    signature_base (covered.map identified) params

theorem mapM_listed {α β : Type} {f : α → Option β} {g : β → α} {listed : List β} (each : ∀ b ∈ listed, f (g b) = some b) :
    (listed.map g).mapM f = some listed := by
  induction listed with
  | nil => rfl
  | cons b rest ih =>
    obtain ⟨first, others⟩ := List.forall_mem_cons.mp each
    rw [List.map_cons, List.mapM_cons, first, ih others]
    rfl

theorem lower_upper {b : UInt8} (upper : 65 ≤ b ∧ b ≤ 90) : (lower b).toNat = b.toNat + 32 ∧ 65 ≤ b.toNat ∧ b.toNat ≤ 90 := by
  have above : 65 ≤ b.toNat := UInt8.le_iff_toNat_le.mp upper.1
  have below : b.toNat ≤ 90 := UInt8.le_iff_toNat_le.mp upper.2
  rw [lower, if_pos upper, UInt8.toNat_add, show (32 : UInt8).toNat = 32 from rfl]
  omega

theorem lower_lower (b : UInt8) : lower (lower b) = lower b := by
  by_cases upper : 65 ≤ b ∧ b ≤ 90
  · have small := lower_upper upper
    apply if_neg
    rintro ⟨_, below⟩
    have below : (lower b).toNat ≤ 90 := UInt8.le_iff_toNat_le.mp below
    omega
  · have same : lower b = b := if_neg upper
    rw [same, same]

theorem key_key (name : Bytes) : key (key name) = key name := by
  simp [key, lower_lower]

theorem lower_token {b : UInt8} (token : isTokenByte b = true) : isTokenByte (lower b) = true := by
  by_cases upper : 65 ≤ b ∧ b ≤ 90
  · have small := lower_upper upper
    have letter : isAlphabetic (lower b) = true := by
      simp only [isAlphabetic, Bool.or_eq_true, Bool.and_eq_true, decide_eq_true_eq, UInt8.le_iff_toNat_le]
      right
      exact ⟨show 97 ≤ (lower b).toNat by omega, show (lower b).toNat ≤ 122 by omega⟩
    simp [isTokenByte, letter]
  · rwa [show lower b = b from if_neg upper]

theorem key_token {name : Bytes} (token : name.all isTokenByte = true) : (key name).all isTokenByte = true := by
  rw [List.all_eq_true] at token ⊢
  intro b listed
  obtain ⟨byte, named, rfl⟩ := List.mem_map.mp listed
  exact lower_token (token byte named)

theorem token_apart {b : UInt8} (token : isTokenByte b = true) : b ≠ quoteMark ∧ b ≠ 32 ∧ b ≠ 41 ∧ b ≠ 64 ∧ b ≠ newline := by
  refine ⟨?_, ?_, ?_, ?_, ?_⟩ <;> rintro rfl <;> revert token <;> decide

def Stated (name : Bytes) : Prop := isQuotedName name = true ∧ newline ∉ name

theorem stated_token {name : Bytes} (some_ : name ≠ []) (token : name.all isTokenByte = true) : Stated name := by
  rw [List.all_eq_true] at token
  refine ⟨?_, fun listed => (token_apart (token newline listed)).2.2.2.2 rfl⟩
  simp only [isQuotedName, Bool.and_eq_true, decide_eq_true_eq, List.all_eq_true]
  refine ⟨some_, ?_⟩
  intro b listed
  have apart := token_apart (token b listed)
  exact ⟨⟨apart.1, apart.2.1⟩, apart.2.2.1⟩

theorem unquoted_component {name : Bytes} (quoted : isQuotedName name = true) : unquoted (component name) = some name := by
  simp [component, unquoted, quoted]

def params_tail (created expires : Int) (key_id nonce tag : Bytes) : Bytes :=
  utf8 ";created=" ++ integer created ++ utf8 ";expires=" ++ integer expires ++ utf8 ";keyid=" ++ component key_id ++
    utf8 ";alg=" ++ component ALGORITHM ++ utf8 ";nonce=" ++ component nonce ++ utf8 ";tag=" ++ component tag

theorem signature_params_eq (components : List Bytes) (created expires : Int) (key_id nonce tag : Bytes) :
    signature_params components created expires key_id nonce tag =
      40 :: (List.intercalate [32] components ++ 41 :: params_tail created expires key_id nonce tag) := by
  have opened : utf8 "(" = [40] := by decide
  have closed : utf8 ");created=" = 41 :: utf8 ";created=" := by decide
  have space : utf8 " " = [32] := by decide
  rw [signature_params, params_tail, opened, closed, space]
  simp only [List.append_assoc, List.cons_append, List.nil_append]

theorem mem_spaced {identifiers : List Bytes} {b : UInt8} (member : b ∈ List.intercalate [32] identifiers) :
    b = 32 ∨ ∃ identifier ∈ identifiers, b ∈ identifier := by
  induction identifiers with
  | nil => cases member
  | cons first rest ih =>
    cases rest with
    | nil => exact Or.inr ⟨first, List.mem_cons_self, by simpa [List.intercalate] using member⟩
    | cons next rest =>
      rw [List.intercalate_cons_cons] at member
      simp only [List.mem_append, List.mem_singleton] at member
      rcases member with (inside | is) | later
      · exact Or.inr ⟨first, List.mem_cons_self, inside⟩
      · exact Or.inl is
      · rcases ih later with is | ⟨identifier, listed, inside⟩
        · exact Or.inl is
        · exact Or.inr ⟨identifier, List.mem_cons_of_mem _ listed, inside⟩

theorem component_mem {name : Bytes} (quoted : isQuotedName name = true) {b : UInt8} (member : b ∈ component name) :
    b ≠ 32 ∧ b ≠ 41 := by
  simp only [isQuotedName, Bool.and_eq_true, List.all_eq_true, decide_eq_true_eq] at quoted
  simp only [component, List.cons_append, List.mem_cons, List.mem_append, List.not_mem_nil, or_false] at member
  rcases member with rfl | member | rfl
  · decide
  · exact ⟨(quoted.2 b member).1.2, (quoted.2 b member).2⟩
  · decide

theorem stated_signature_params {names : List Bytes} (some_ : names ≠ []) (quoted : ∀ name ∈ names, isQuotedName name = true)
    (created expires : Int) (key_id nonce tag : Bytes) :
    stated_components (signature_params (names.map component) created expires key_id nonce tag) = some names := by
  have plain : ∀ identifier ∈ names.map component, ∀ b ∈ identifier, b ≠ 32 ∧ b ≠ 41 := by
    intro identifier listed b member
    obtain ⟨name, named, rfl⟩ := List.mem_map.mp listed
    exact component_mem (quoted name named) member
  have unclosed : ∀ b ∈ List.intercalate [32] (names.map component), decide (b ≠ (41 : UInt8)) = true := by
    intro b member
    rw [decide_eq_true_eq]
    rcases mem_spaced member with rfl | ⟨identifier, listed, inside⟩
    · decide
    · exact (plain identifier listed b inside).2
  have taken (tail : Bytes) : (List.intercalate [32] (names.map component) ++ 41 :: tail).takeWhile (· ≠ (41 : UInt8)) =
      List.intercalate [32] (names.map component) := by
    rw [List.takeWhile_append_of_pos unclosed, List.takeWhile_cons_of_neg (by decide), List.append_nil]
  have split : (List.intercalate [32] (names.map component)).splitOn 32 = names.map component :=
    List.splitOn_intercalate 32 (fun identifier listed member => (plain identifier listed 32 member).1 rfl) (by simpa using some_)
  rw [signature_params_eq, stated_components, if_pos ⟨rfl, by simp⟩, taken, split]
  exact mapM_listed fun name listed => unquoted_component (quoted name listed)

end CommonMeasure.Identity
