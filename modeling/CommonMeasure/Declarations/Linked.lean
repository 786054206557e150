import CommonMeasure.Declarations.Links

/-!
# Members of a field

The members lie in the field in order, white space and commas between them.
-/

namespace CommonMeasure.Declarations.Links

/-! ### What is left is the end of what was -/

section

variable {rest after value : Bytes}

theorem skip_ows_suffix (rest : Bytes) : skip_ows rest <:+ rest := List.dropWhile_suffix _

theorem quoted_value_suffix {escaped : Bool} (read : quoted_value escaped rest = some (value, after)) : after <:+ rest := by
  induction rest generalizing escaped value with
  | nil => cases read
  | cons byte rest ih =>
    rw [quoted_value] at read
    split at read
    · obtain ⟨rfl, rfl⟩ := Prod.mk.inj (Option.some.inj read)
      exact List.suffix_cons _ _
    · split at read
      · exact (ih read).trans (List.suffix_cons _ _)
      · obtain ⟨⟨inner, more⟩, found, same⟩ := Option.map_eq_some_iff.mp read
        obtain ⟨rfl, rfl⟩ := Prod.mk.inj same
        exact (ih found).trans (List.suffix_cons _ _)

theorem read_value_suffix (read : read_value rest = .ok (value, after)) : after <:+ rest := by
  unfold read_value at read
  split at read
  · obtain ⟨rfl, rfl⟩ := Prod.mk.inj (Except.ok.inj read)
    exact List.nil_suffix
  · rename_i byte inner skipped
    have whole : byte :: inner <:+ rest := skipped ▸ skip_ows_suffix rest
    split at read
    · have tail : inner <:+ rest := (List.suffix_cons _ _).trans whole
      split at read
      · obtain ⟨rfl, rfl⟩ := Prod.mk.inj (Except.ok.inj read)
        exact List.nil_suffix
      · rename_i first more again
        have within : first :: more <:+ rest := (again ▸ skip_ows_suffix inner).trans tail
        split at read
        · cases found : quoted_value false more with
          | none =>
            rw [found] at read
            cases read
          | some pair =>
            rw [found] at read
            obtain rfl := Except.ok.inj read
            exact (quoted_value_suffix found).trans ((List.suffix_cons _ _).trans within)
        · obtain ⟨rfl, rfl⟩ := Prod.mk.inj (Except.ok.inj read)
          exact (List.dropWhile_suffix _).trans within
    · obtain ⟨rfl, rfl⟩ := Prod.mk.inj (Except.ok.inj read)
      exact whole

theorem parse_params_suffix (turns : Nat) (member : LinkMember) (rest : Bytes) {after : Bytes}
    (read : (parse_params turns member rest).2 = .ok after) : after <:+ rest := by
  induction turns generalizing member rest with
  | zero =>
    obtain rfl := Except.ok.inj read
    exact List.suffix_refl _
  | succ turns ih =>
    rw [parse_params] at read
    have skipped := skip_ows_suffix rest
    split at read
    · obtain rfl := Except.ok.inj read
      exact List.nil_suffix
    · rename_i byte inner is
      rw [is] at skipped
      have tail : inner <:+ rest := (List.suffix_cons _ _).trans skipped
      have named : (skip_ows inner).dropWhile isName <:+ rest :=
        (List.dropWhile_suffix _).trans ((skip_ows_suffix inner).trans tail)
      split at read
      · obtain rfl := Except.ok.inj read
        exact skipped
      · split at read
        · dsimp only at read
          split at read
          · split at read
            · exact (ih _ _ read).trans named
            · cases read
          · split at read
            · cases read
            · rename_i value more found
              exact (ih _ _ read).trans ((read_value_suffix found).trans named)
        · cases read

theorem next_member_suffix (scan : Scan) (rest : Bytes) : next_member scan rest <:+ rest := by
  induction rest generalizing scan with
  | nil => exact List.suffix_refl _
  | cons byte rest ih =>
    rw [next_member]
    split
    · exact List.suffix_refl _
    · exact (ih _).trans (List.suffix_cons _ _)

theorem member_at_ok (parsed : (parse_member rest).2 = .ok after) : member_at rest = ({ (parse_member rest).1 with
    malformed := none, raw := (rest.take (rest.length - after.length)).rdropWhile is_ows }, after) := by
  unfold member_at
  generalize parse_member rest = read at parsed
  obtain ⟨member, result⟩ := read
  obtain rfl : result = .ok after := parsed
  rfl

theorem member_at_error {why : String} (parsed : (parse_member rest).2 = .error why) :
    member_at rest = ({ (parse_member rest).1 with malformed := some why, raw :=
      (rest.take (rest.length - (next_member .start rest).length)).rdropWhile is_ows }, next_member .start rest) := by
  unfold member_at
  generalize parse_member rest = read at parsed
  obtain ⟨member, result⟩ := read
  obtain rfl : result = .error why := parsed
  rfl

theorem member_at_suffix {byte : UInt8} (begins : isGap byte = false) (rest : Bytes) :
    (member_at (byte :: rest)).2 <:+ rest := by
  cases parsed : (parse_member (byte :: rest)).2 with
  | error why =>
    have other : byte ≠ COMMA := by
      rintro rfl
      revert begins
      decide
    rw [member_at_error parsed]
    dsimp only
    rw [next_member, if_neg fun both => other both.1]
    exact next_member_suffix _ _
  | ok after =>
    rw [member_at_ok parsed]
    rw [parse_member] at parsed
    split at parsed
    · cases parsed
    · split at parsed
      · cases parsed
      · rename_i more closes
        have inner : more <:+ rest := (List.suffix_cons _ _).trans (closes ▸ List.dropWhile_suffix _)
        exact (parse_params_suffix _ _ _ parsed).trans inner

theorem member_at_bytes (rest : Bytes) : (member_at rest).1.raw =
    (rest.take (rest.length - (member_at rest).2.length)).rdropWhile is_ows := by
  cases parsed : (parse_member rest).2 with
  | error why => rw [member_at_error parsed]
  | ok after => rw [member_at_ok parsed]

inductive Split : Bytes → List LinkMember → Prop
  | nil {gap} : gap.all isGap = true → Split gap []
  | cons {gap member rest members} : gap.all isGap = true → member.raw ≠ [] → Split rest members →
      Split (gap ++ member.raw ++ rest) (member :: members)

theorem Split.gap {gap : Bytes} {members : List LinkMember} (blank : gap.all isGap = true) (split : Split rest members) :
    Split (gap ++ rest) members := by
  cases split with
  | nil also => exact .nil (by rw [List.all_append, blank, also]; rfl)
  | cons also some_ later =>
    rw [← List.append_assoc, ← List.append_assoc]
    exact .cons (by rw [List.all_append, blank, also]; rfl) some_ later

theorem member_at_raw {byte : UInt8} (begins : isGap byte = false) (rest : Bytes) :
    (member_at (byte :: rest)).1.raw ≠ [] ∧ ∃ white, white.all is_ows = true ∧
      byte :: rest = (member_at (byte :: rest)).1.raw ++ (white ++ (member_at (byte :: rest)).2) := by
  obtain ⟨front, whole⟩ := member_at_suffix begins rest
  have raw := member_at_bytes (byte :: rest)
  have length := congrArg List.length whole
  rw [List.length_append] at length
  have taken : (byte :: rest).take ((byte :: rest).length - (member_at (byte :: rest)).2.length) = byte :: front := by
    have count : (byte :: rest).length - (member_at (byte :: rest)).2.length = (byte :: front).length := by
      simp only [List.length_cons]
      omega
    rw [count]
    conv_lhs => rw [← whole]
    exact List.take_left
  rw [taken] at raw
  refine ⟨?_, (byte :: front).rtakeWhile is_ows, ?_, ?_⟩
  · rw [raw]
    intro none_
    have white := List.rdropWhile_eq_nil_iff.mp none_ byte List.mem_cons_self
    rw [isGap, white] at begins
    cases begins
  · exact List.all_eq_true.mpr fun b listed => List.mem_rtakeWhile_imp listed
  · rw [raw, ← List.append_assoc, List.rdropWhile_append_rtakeWhile, List.cons_append, whole]

theorem gap_of_ows {white : Bytes} (ows : white.all is_ows = true) : white.all isGap = true := by
  apply List.all_eq_true.mpr
  intro b listed
  rw [isGap, List.all_eq_true.mp ows b listed]
  rfl

theorem membersFrom_split (turns : Nat) (rest : Bytes) (enough : rest.length ≤ turns) :
    Split rest (membersFrom turns rest) := by
  induction turns generalizing rest with
  | zero =>
    obtain rfl := List.eq_nil_of_length_eq_zero (Nat.le_zero.mp enough)
    exact .nil rfl
  | succ turns ih =>
    have parts := List.takeWhile_append_dropWhile (p := isGap) (l := rest)
    have blank : (rest.takeWhile isGap).all isGap = true := List.all_takeWhile
    rw [membersFrom]
    split
    · rename_i none_
      rw [none_, List.append_nil] at parts
      exact .nil (parts ▸ blank)
    · rename_i byte after is
      have begins : isGap byte = false := by
        have head := List.head?_dropWhile_not isGap rest
        rw [is] at head
        simpa using head
      obtain ⟨some_, white, ows, whole⟩ := member_at_raw begins after
      have shorter := (member_at_suffix begins after).length_le
      have total := congrArg List.length parts
      rw [is, List.length_append, List.length_cons] at total
      have later := ih (member_at (byte :: after)).2 (by omega)
      have joined := @Split.cons _ (member_at (byte :: after)).1 _ _ blank some_ (later.gap (gap_of_ows ows))
      have text : rest = rest.takeWhile isGap ++ (member_at (byte :: after)).1.raw ++
        (white ++ (member_at (byte :: after)).2) := by
        rw [List.append_assoc, ← whole, ← is, parts]
      rw [text]
      exact joined

theorem link_members_split (field : Bytes) : Split field (link_members field) := membersFrom_split _ field (Nat.le_refl _)

theorem next_member_stops (scan : Scan) (rest : Bytes) : ∃ before, rest = before ++ next_member scan rest ∧
    (∀ front back, before = front ++ COMMA :: back → front.foldl Scan.step scan ≠ .start) ∧
    (next_member scan rest ≠ [] → (next_member scan rest).head? = some COMMA ∧ before.foldl Scan.step scan = .start) := by
  induction rest generalizing scan with
  | nil => exact ⟨[], rfl, by simp, by simp [next_member]⟩
  | cons byte rest ih =>
    rw [next_member]
    split
    · rename_i stops
      obtain ⟨rfl, rfl⟩ := stops
      exact ⟨[], rfl, by simp, fun _ => ⟨rfl, rfl⟩⟩
    · rename_i goes
      obtain ⟨before, whole, inside, ends⟩ := ih (scan.step byte)
      refine ⟨byte :: before, by rw [List.cons_append, ← whole], ?_, ends⟩
      intro front back parts
      cases front with
      | nil =>
        obtain ⟨rfl, rfl⟩ := List.cons.inj parts
        exact fun is => goes ⟨rfl, is⟩
      | cons first front =>
        obtain ⟨rfl, later⟩ := List.cons.inj parts
        exact inside front back later

def then_ (text more : Bytes) : Bytes := text ++ COMMA :: more

variable {more : Bytes}

theorem dropWhile_then {p : UInt8 → Bool} (stops : p COMMA = false) (text more : Bytes) :
    (then_ text more).dropWhile p = then_ (text.dropWhile p) more := by
  rw [then_, List.dropWhile_append]
  split
  · rename_i none_
    rw [List.isEmpty_iff] at none_
    rw [none_, List.dropWhile_cons_of_neg (by simp [stops])]
    rfl
  · rfl

theorem takeWhile_then {p : UInt8 → Bool} (stops : p COMMA = false) (text more : Bytes) :
    (then_ text more).takeWhile p = text.takeWhile p := by
  rw [then_, List.takeWhile_append]
  split
  · rw [List.takeWhile_cons_of_neg (by simp [stops]), List.append_nil]
    rename_i whole
    exact ((List.takeWhile_prefix p).eq_of_length whole).symm
  · rfl

theorem quoted_value_then {escaped : Bool} (read : quoted_value escaped rest = some (value, after)) (more : Bytes) :
    quoted_value escaped (then_ rest more) = some (value, then_ after more) := by
  induction rest generalizing escaped value with
  | nil => cases read
  | cons byte rest ih =>
    rw [then_, List.cons_append, quoted_value]
    rw [quoted_value] at read
    split at read
    · rename_i closes
      obtain ⟨rfl, rfl⟩ := Prod.mk.inj (Option.some.inj read)
      rw [if_pos closes]
      rfl
    · rename_i open_
      rw [if_neg open_]
      split at read
      · rename_i escapes
        rw [if_pos escapes]
        exact ih read
      · rename_i plain
        rw [if_neg plain]
        obtain ⟨⟨inner, tail⟩, found, same⟩ := Option.map_eq_some_iff.mp read
        obtain ⟨rfl, rfl⟩ := Prod.mk.inj same
        have later := ih found
        rw [then_] at later
        rw [later]
        rfl

theorem read_value_then (read : read_value rest = .ok (value, after)) (more : Bytes) :
    read_value (then_ rest more) = .ok (value, then_ after more) := by
  have skip (text : Bytes) : skip_ows (then_ text more) = then_ (skip_ows text) more := dropWhile_then (by decide) text more
  rw [read_value, skip]
  rw [read_value] at read
  cases first : skip_ows rest with
  | nil =>
    rw [first] at read
    obtain ⟨rfl, rfl⟩ := Prod.mk.inj (Except.ok.inj read)
    rfl
  | cons byte inner =>
    rw [first] at read
    dsimp only at read
    rw [then_, List.cons_append]
    dsimp only
    split at read
    · rename_i equals
      rw [if_pos equals]
      have again := skip inner
      rw [then_] at again
      rw [again]
      cases second : skip_ows inner with
      | nil =>
        rw [second] at read
        obtain ⟨rfl, rfl⟩ := Prod.mk.inj (Except.ok.inj read)
        rfl
      | cons opens tail =>
        rw [second] at read
        dsimp only at read
        rw [then_, List.cons_append]
        dsimp only
        split at read
        · rename_i quote
          rw [if_pos quote]
          cases found : quoted_value false tail with
          | none =>
            rw [found] at read
            cases read
          | some pair =>
            rw [found] at read
            obtain rfl := Except.ok.inj read
            have later := quoted_value_then found more
            rw [then_] at later
            rw [later]
            rfl
        · rename_i bare
          obtain ⟨rfl, rfl⟩ := Prod.mk.inj (Except.ok.inj read)
          rw [if_neg bare]
          have taken := takeWhile_then (p := isValue) (by decide) (opens :: tail) more
          have dropped := dropWhile_then (p := isValue) (by decide) (opens :: tail) more
          rw [then_, List.cons_append] at taken dropped
          rw [taken, dropped]
    · rename_i other
      obtain ⟨rfl, rfl⟩ := Prod.mk.inj (Except.ok.inj read)
      rw [if_neg other]
      rfl

theorem read_value_error {why : String} (read : read_value rest = .error why) : why = UNCLOSED := by
  unfold read_value at read
  split at read
  · cases read
  · split at read
    · split at read
      · cases read
      · split at read
        · rename_i inner _ _
          cases found : quoted_value false inner with
          | none =>
            rw [found] at read
            exact (Except.error.inj read).symm
          | some pair =>
            rw [found] at read
            cases read
        · cases read
    · cases read

theorem parse_params_named (turns : Nat) (member : LinkMember) {rest inner name left : Bytes} {byte : UInt8}
    (first : skip_ows rest = byte :: inner) (comma : byte ≠ COMMA) (semicolon : byte = SEMICOLON)
    (named : (skip_ows inner).takeWhile isName = name) (lefts : (skip_ows inner).dropWhile isName = left) :
    parse_params (turns + 1) member rest = if name = [] then
        if left.head?.all fun byte => byte = COMMA || byte = SEMICOLON then parse_params turns member left
        else (member, .error "a parameter has no name")
      else match read_value left with
        | .error why => ({ member with odd_name := member.odd_name || !name.all is_tchar }, .error why)
        | .ok (value, rest) => parse_params turns
            (LinkMember.assign { member with odd_name := member.odd_name || !name.all is_tchar } name value) rest := by
  rw [← named, ← lefts, parse_params, first]
  dsimp only
  rw [if_neg comma]
  exact if_pos semicolon

theorem parse_params_then (turns more_turns : Nat) (member : LinkMember) (rest more : Bytes) (enough : rest.length < turns)
    (also : turns ≤ more_turns) :
    ((parse_params turns member rest).2 = .ok [] →
      parse_params more_turns member (then_ rest more) = ((parse_params turns member rest).1, .ok (COMMA :: more))) ∧
    ∀ why, (parse_params turns member rest).2 = .error why → why ≠ UNCLOSED →
      parse_params more_turns member (then_ rest more) = ((parse_params turns member rest).1, .error why) := by
  induction turns generalizing more_turns member rest with
  | zero => omega
  | succ turns ih =>
    cases more_turns with
    | zero => omega
    | succ more_turns =>
    have skip : skip_ows (then_ rest more) = then_ (skip_ows rest) more := dropWhile_then (by decide) rest more
    have shorter := (skip_ows_suffix rest).length_le
    cases first : skip_ows rest with
    | nil =>
      have one : parse_params (turns + 1) member rest = (member, .ok []) := by rw [parse_params, first]
      have other : parse_params (more_turns + 1) member (then_ rest more) = (member, .ok (COMMA :: more)) := by
        rw [parse_params, skip, first]
        rfl
      rw [one, other]
      exact ⟨fun _ => rfl, fun why is => by cases is⟩
    | cons byte inner =>
      have after : skip_ows (then_ rest more) = byte :: then_ inner more := by rw [skip, first]; rfl
      rw [first, List.length_cons] at shorter
      by_cases comma : byte = COMMA
      · have one : parse_params (turns + 1) member rest = (member, .ok (byte :: inner)) := by
          rw [parse_params, first]
          exact if_pos comma
        rw [one]
        exact ⟨fun is => (by cases is), fun why is => (by cases is)⟩
      · by_cases semicolon : byte = SEMICOLON
        · obtain ⟨name, named⟩ : ∃ name, (skip_ows inner).takeWhile isName = name := ⟨_, rfl⟩
          obtain ⟨left, lefts⟩ : ∃ left, (skip_ows inner).dropWhile isName = left := ⟨_, rfl⟩
          have within : left.length ≤ inner.length := by
            rw [← lefts]
            exact ((List.dropWhile_suffix _).trans (skip_ows_suffix inner)).length_le
          have inner_skip : skip_ows (then_ inner more) = then_ (skip_ows inner) more := dropWhile_then (by decide) inner more
          have also_named : (skip_ows (then_ inner more)).takeWhile isName = name := by
            rw [inner_skip, takeWhile_then (by decide), named]
          have also_left : (skip_ows (then_ inner more)).dropWhile isName = then_ left more := by
            rw [inner_skip, dropWhile_then (by decide), lefts]
          have one := parse_params_named turns member first comma semicolon named lefts
          have other := parse_params_named more_turns member after comma semicolon also_named also_left
          rw [one, other]
          by_cases unnamed : name = []
          · rw [if_pos unnamed, if_pos unnamed]
            have heads : ((then_ left more).head?.all fun byte => byte = COMMA || byte = SEMICOLON) =
                left.head?.all fun byte => byte = COMMA || byte = SEMICOLON := by
              cases left
              all_goals rfl
            rw [heads]
            split
            · exact ih more_turns member left (by omega) (by omega)
            · exact ⟨fun is => (by cases is), fun why is _ => by rw [← Except.error.inj is]⟩
          · rw [if_neg unnamed, if_neg unnamed]
            cases read : read_value left with
            | error why =>
              refine ⟨fun is => (by cases is), fun also is closed => ?_⟩
              exact (closed ((Except.error.inj is) ▸ read_value_error read)).elim
            | ok pair =>
              obtain ⟨value, tail⟩ := pair
              have tail_short := (read_value_suffix read).length_le
              rw [read_value_then read more]
              exact ih more_turns _ tail (by omega) (by omega)
        · have one : parse_params (turns + 1) member rest = (member, .error "a parameter follows without a ;") := by
            rw [parse_params, first]
            dsimp only
            rw [if_neg comma, if_neg semicolon]
          have other : parse_params (more_turns + 1) member (then_ rest more) =
              (member, .error "a parameter follows without a ;") := by
            rw [parse_params, after]
            dsimp only
            rw [if_neg comma, if_neg semicolon]
          rw [one, other]
          exact ⟨fun is => (by cases is), fun why is _ => by rw [← Except.error.inj is]⟩

theorem parse_member_then (rest more : Bytes) :
    ((parse_member rest).2 = .ok [] → parse_member (then_ rest more) = ((parse_member rest).1, .ok (COMMA :: more))) ∧
    ∀ why, (parse_member rest).2 = .error why → why ≠ UNCLOSED → why ≠ UNENDED →
      parse_member (then_ rest more) = ((parse_member rest).1, .error why) := by
  cases rest with
  | nil =>
    refine ⟨fun is => (by cases is), fun why is _ _ => ?_⟩
    rw [← Except.error.inj is]
    rfl
  | cons byte after =>
    have whole : then_ (byte :: after) more = byte :: then_ after more := rfl
    rw [whole, parse_member, parse_member]
    by_cases opens : byte = OPEN
    · rw [if_neg (not_not.mpr opens), if_neg (not_not.mpr opens)]
      cases closes : after.dropWhile (· ≠ CLOSE) with
      | nil => exact ⟨fun is => (by cases is), fun why is _ ended => (ended (Except.error.inj is).symm).elim⟩
      | cons close rest =>
        have dropped : (then_ after more).dropWhile (· ≠ CLOSE) = close :: then_ rest more := by
          rw [then_, List.dropWhile_append, closes]
          rfl
        have taken : (then_ after more).takeWhile (· ≠ CLOSE) = after.takeWhile (· ≠ CLOSE) := by
          have parts := congrArg List.length (List.takeWhile_append_dropWhile (p := (· ≠ CLOSE)) (l := after))
          rw [closes, List.length_append, List.length_cons] at parts
          rw [then_, List.takeWhile_append, if_neg (by omega)]
        rw [dropped, taken]
        have longer : rest.length + 1 ≤ (then_ rest more).length + 1 := by
          rw [then_, List.length_append]
          omega
        have parsed := parse_params_then (rest.length + 1) _ { LinkMember.empty with target := some (after.takeWhile (· ≠ CLOSE)) }
          rest more (Nat.lt_succ_self _) longer
        exact ⟨parsed.1, fun why is closed _ => parsed.2 why is closed⟩
    · rw [if_pos opens, if_pos opens]
      exact ⟨fun is => (by cases is), fun why is _ _ => by rw [← Except.error.inj is]⟩

theorem next_member_then (scan : Scan) (rest more : Bytes) (inside : next_member scan rest = [])
    (closes : rest.foldl Scan.step scan = .start) : next_member scan (then_ rest more) = COMMA :: more := by
  induction rest generalizing scan with
  | nil => exact if_pos ⟨rfl, closes⟩
  | cons byte rest ih =>
    rw [next_member] at inside
    split at inside
    · cases inside
    · rename_i goes
      have whole : then_ (byte :: rest) more = byte :: then_ rest more := rfl
      rw [whole, next_member, if_neg goes]
      exact ih _ inside closes

end

end CommonMeasure.Declarations.Links
