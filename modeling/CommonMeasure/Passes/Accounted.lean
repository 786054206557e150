import CommonMeasure.Passes.Wallet

/-!
# What becomes of a pass

A pass is returned once at most, and leaves its wallet by being taken or by its key; unless a refill meets one that does
not decode beside one that does under the listed key.
-/

namespace CommonMeasure.Passes

variable {Token Challenge Stopped Pid : Type} {L : Libraries Token Challenge Stopped}

/-! ### One take and one refill -/

theorem find_eraseP {α : Type} {p : α → Bool} {xs : List α} {x : α} (found : xs.find? p = some x) :
    (x :: xs.eraseP p).Perm xs := by
  induction xs with
  | nil => cases found
  | cons y ys ih =>
    by_cases holds : p y = true
    · rw [List.find?_cons_of_pos holds, Option.some.injEq] at found
      rw [List.eraseP_cons_of_pos holds, found]
    · rw [List.find?_cons_of_neg holds] at found
      rw [List.eraseP_cons_of_neg holds]
      exact (List.Perm.swap y x _).trans ((ih found).cons y)

theorem take_where_ok {wanted : Wanted Challenge} {held memory : WalletFile} {pass : HeldPass}
    (took : take_where L wanted held = .ok (some (pass, memory))) : (pass :: memory.passes).Perm held.passes := by
  unfold take_where at took
  cases answers : wanted.answers L with
  | error =>
    rw [answers] at took
    cases took
  | ok answers_ =>
    cases decoded : tokens L held with
    | error =>
      rw [answers, decoded] at took
      cases took
    | ok =>
      rw [answers, decoded] at took
      obtain ⟨found, is, same⟩ := Option.map_eq_some_iff.mp (Except.ok.inj took)
      cases same
      exact find_eraseP is

theorem sift_ok {current : Bytes} {passes kept : List HeldPass} (sifted : sift L current passes = .ok kept) :
    kept = passes.filter (underKey L current) := by
  induction passes generalizing kept with
  | nil =>
    cases sifted
    rfl
  | cons pass rest ih =>
    cases decoded : L.decode_token pass.token with
    | error =>
      simp only [sift, decoded, bind, Except.bind] at sifted
      cases sifted
    | ok token =>
      cases more : sift L current rest with
      | error =>
        simp only [sift, decoded, more, bind, Except.bind] at sifted
        cases sifted
      | ok others =>
        simp only [sift, decoded, more, bind, Except.bind] at sifted
        rw [← Except.ok.inj sifted, ih more]
        by_cases same : L.token_key_id token = current <;> simp [underKey, answersHeld, decoded, same]

theorem sift_error {current : Bytes} {passes : List HeldPass} {e : String} (sifted : sift L current passes = .error e) :
    ∃ pass ∈ passes, ∃ e, L.decode_token pass.token = .error e := by
  induction passes with
  | nil => cases sifted
  | cons pass rest ih =>
    cases decoded : L.decode_token pass.token with
    | error e => exact ⟨pass, List.mem_cons_self, e, decoded⟩
    | ok token =>
      cases more : sift L current rest with
      | error e' =>
        rw [more] at ih
        simp only [sift, decoded, more, bind, Except.bind] at sifted
        obtain ⟨other, listed, fails⟩ := ih (congrArg Except.error (Except.error.inj sifted))
        exact ⟨other, List.mem_cons_of_mem _ listed, fails⟩
      | ok =>
        simp only [sift, decoded, more, bind, Except.bind] at sifted
        cases sifted

section

variable (credential : String) (challenge : Challenge) (key : AnchorKey) (answers : List (Except Stopped Token))
  (held : WalletFile)

theorem refill_passes : (refill L credential challenge key answers held).memory.passes =
      held.passes.filter (underKey L key.key_id) ++ (refill L credential challenge key answers held).obtained ∨
    (∃ pass ∈ held.passes, ∃ e, L.decode_token pass.token = .error e) ∧
      (refill L credential challenge key answers held).memory.passes = [] := by
  unfold refill
  cases sifted : sift L key.key_id held.passes with
  | error => exact .inr ⟨sift_error sifted, rfl⟩
  | ok kept =>
    left
    rw [← sift_ok sifted]

theorem count_refill (pass : HeldPass) : (refill L credential challenge key answers held).memory.passes.count pass ≤
    held.passes.count pass + (refill L credential challenge key answers held).obtained.count pass := by
  rcases refill_passes credential challenge key answers held (L := L) with kept | ⟨_, lost⟩
  · rw [kept, List.count_append]
    have fewer : (held.passes.filter (underKey L key.key_id)).count pass ≤ held.passes.count pass :=
      List.filter_sublist.count_le pass
    omega
  · rw [lost]
    exact Nat.zero_le _

end

section

variable {s : System Pid Stopped} {pid : Pid} {memory : WalletFile}

theorem memory_eq [DecidableEq Pid] (is : s.memory pid = some memory) : s.wallet = some (pid, memory) := by
  unfold System.memory at is
  obtain ⟨⟨_, _⟩, kept, rfl⟩ := Option.map_eq_some_iff.mp is
  obtain ⟨there, same⟩ := Option.filter_eq_some_iff.mp kept
  rw [there, ← of_decide_eq_true same]

end

/-- How often a pass may have been returned: as often as it was there or was obtained, less where it is still held. -/
def Counted (start : File) (s : System Pid Stopped) : Prop := ∀ pass : HeldPass,
  s.returned.count pass + s.file.passes.count pass ≤ start.passes.count pass + s.obtained.count pass ∧
    ∀ pid memory, s.wallet = some (pid, memory) →
      s.returned.count pass + memory.passes.count pass ≤ start.passes.count pass + s.obtained.count pass

variable {start : File} {s : System Pid Stopped}

theorem counted_start : Counted start (System.start start : System Pid Stopped) := by
  intro pass
  simp [System.start]

theorem opened_passes {anchor_origin path : String} {file : File} {memory : WalletFile}
    (is : opened anchor_origin path file = .ok memory) : memory.passes = file.passes := by
  unfold opened at is
  split at is
  · cases is
  · cases is
    rfl
  · split at is <;> cases is
    rfl

theorem counted_took (counted : Counted start s) {pid : Pid} {memory : WalletFile} (is : s.wallet = some (pid, memory))
    (wanted : Wanted Challenge) (saved : Saved) : Counted start (tookStep L wanted saved pid memory s) := by
  intro pass
  obtain ⟨file, open_⟩ := counted pass
  have here := open_ pid memory is
  unfold tookStep
  split
  · exact ⟨file, open_⟩
  · exact ⟨file, open_⟩
  rename_i taken memory' took
  have perm := (take_where_ok took).count_eq pass
  rw [List.count_cons] at perm
  cases saved with
  | returned =>
    simp only [Saved.isReturned, System.save, Saved.replaced, if_true, passes_wallet, List.count_append,
      List.count_singleton, Option.some.injEq, Prod.mk.injEq]
    refine ⟨by omega, ?_⟩
    rintro _ _ ⟨rfl, rfl⟩
    omega
  | failed replaced =>
    simp only [Saved.isReturned, System.save, Saved.replaced, Option.some.injEq, Prod.mk.injEq, Bool.false_eq_true, if_false]
    refine ⟨?_, ?_⟩
    · cases replaced
      · exact file
      · simp only [if_true, passes_wallet]
        omega
    · rintro _ _ ⟨rfl, rfl⟩
      omega
  | stopped replaced =>
    simp only [Saved.isReturned, System.save, Saved.replaced, Bool.false_eq_true, if_false]
    refine ⟨?_, fun _ _ none_ => (nomatch none_)⟩
    cases replaced
    · exact file
    · simp only [if_true, passes_wallet]
      omega

theorem counted_refill (counted : Counted start s) {pid : Pid} {memory : WalletFile} (is : s.wallet = some (pid, memory))
    (credential : String) (challenge : Challenge) (key : AnchorKey) (answers : List (Except Stopped Token)) (saved : Saved) :
    Counted start (refillStep L credential challenge key answers saved pid memory s) := by
  intro pass
  obtain ⟨file, open_⟩ := counted pass
  have here := open_ pid memory is
  have fewer := count_refill credential challenge key answers memory pass (L := L)
  unfold refillStep
  dsimp only
  split
  · simp only [List.count_append, Option.some.injEq, Prod.mk.injEq]
    refine ⟨by omega, ?_⟩
    rintro _ _ ⟨rfl, rfl⟩
    omega
  cases saved with
  | returned =>
    simp only [Saved.isReturned, System.save, Saved.replaced, if_true, passes_wallet, List.count_append, Option.some.injEq,
      Prod.mk.injEq]
    refine ⟨by omega, ?_⟩
    rintro _ _ ⟨rfl, rfl⟩
    omega
  | failed replaced =>
    simp only [Saved.isReturned, System.save, Saved.replaced, List.count_append, Option.some.injEq, Prod.mk.injEq,
      Bool.false_eq_true, if_false]
    refine ⟨?_, ?_⟩
    · cases replaced
      · simp only [Bool.false_eq_true, if_false]
        omega
      · simp only [if_true, passes_wallet]
        omega
    · rintro _ _ ⟨rfl, rfl⟩
      omega
  | stopped replaced =>
    simp only [Saved.isReturned, System.save, Saved.replaced, List.count_append, Bool.false_eq_true, if_false]
    refine ⟨?_, fun _ _ none_ => (nomatch none_)⟩
    cases replaced
    · simp only [Bool.false_eq_true, if_false]
      omega
    · simp only [if_true, passes_wallet]
      omega

theorem counted_step [DecidableEq Pid] (counted : Counted start s) (act : Act Pid Token Challenge Stopped) :
    Counted start (step L s act) := by
  cases act with
  | opens pid anchor_origin path =>
    unfold step
    dsimp only
    split
    · exact counted
    split
    · exact counted
    rename_i memory is
    intro pass
    obtain ⟨file, _⟩ := counted pass
    refine ⟨file, ?_⟩
    rintro _ _ ⟨⟩
    rw [opened_passes is]
    exact file
  | takes pid wanted saved =>
    unfold step
    dsimp only
    split
    · exact counted
    · rename_i is
      exact counted_took counted (memory_eq is) wanted saved
  | refills pid credential challenge directory answers saved =>
    unfold step
    dsimp only
    split
    · exact counted
    · exact counted
    · rename_i is
      exact counted_refill counted (memory_eq is) credential challenge _ answers saved
  | drops pid =>
    intro pass
    obtain ⟨file, open_⟩ := counted pass
    refine ⟨file, fun other memory is => open_ other memory ?_⟩
    exact (Option.filter_eq_some_iff.mp is).1

def Gone (s : System Pid Stopped) (pass : HeldPass) : Prop := pass ∈ s.taken ∨ ∃ key, (pass, key) ∈ s.discarded

structure Accounted (L : Libraries Token Challenge Stopped) (s : System Pid Stopped) : Prop where
  filed : ∀ pass ∈ s.held, pass ∈ s.file.passes ∨ Gone s pass
  carried : ∀ pid memory, s.wallet = some (pid, memory) → ∀ pass ∈ s.held, pass ∈ memory.passes ∨ Gone s pass
  other : ∀ pass key, (pass, key) ∈ s.discarded → underKey L key pass = false

theorem accounted_start : Accounted L (System.start start : System Pid Stopped) :=
  ⟨fun _ listed => .inl listed, fun _ _ none_ => (nomatch none_), fun _ _ none_ => (nomatch none_)⟩

theorem Accounted.save (accounted : Accounted L s) (pid : Pid) (memory : WalletFile) (saved : Saved) {t : System Pid Stopped}
    (file : t.file = (s.save pid memory saved).file) (held : t.held = (s.save pid memory saved).held)
    (wallet : t.wallet = (s.save pid memory saved).wallet) (grows : ∀ pass, Gone s pass → Gone t pass)
    (kept : ∀ pass ∈ s.held, pass ∈ memory.passes ∨ Gone t pass)
    (other : ∀ pass key, (pass, key) ∈ t.discarded → underKey L key pass = false) : Accounted L t := by
  have carried : ∀ pass ∈ t.held, pass ∈ memory.passes ∨ Gone t pass := by
    intro pass listed
    rw [held] at listed
    unfold System.save at listed
    dsimp only at listed
    split at listed
    · exact (List.mem_append.mp listed).elim (kept pass) .inl
    · exact kept pass listed
  refine ⟨fun pass listed => ?_, fun other_ memory' open_ => ?_, other⟩
  · rw [file]
    by_cases replaced : saved.replaced = true
    · simp only [System.save, replaced, if_true]
      exact carried pass listed
    · rw [held] at listed
      simp only [System.save, replaced, Bool.false_eq_true, if_false] at listed ⊢
      exact (accounted.filed pass listed).imp_right (grows pass)
  · rw [wallet] at open_
    have same : memory' = memory := by
      cases saved <;> simp only [System.save, Option.some.injEq, Prod.mk.injEq, reduceCtorEq] at open_
      · exact open_.2.symm
      · exact open_.2.symm
    rw [same]
    exact carried

theorem accounted_took (accounted : Accounted L s) {pid : Pid} {memory : WalletFile} (is : s.wallet = some (pid, memory))
    (wanted : Wanted Challenge) (saved : Saved) : Accounted L (tookStep L wanted saved pid memory s) := by
  unfold tookStep
  split
  · exact ⟨accounted.filed, accounted.carried, accounted.other⟩
  · exact ⟨accounted.filed, accounted.carried, accounted.other⟩
  rename_i taken memory' took
  have perm := take_where_ok took
  have kept : ∀ pass ∈ s.held, pass ∈ memory'.passes ∨ pass ∈ s.taken ++ [taken] ∨ ∃ key, (pass, key) ∈ s.discarded := by
    intro pass listed
    rcases accounted.carried pid memory is pass listed with here | before | dropped
    · rcases List.mem_cons.mp (perm.mem_iff.mpr here) with rfl | stays
      · exact .inr (.inl (List.mem_append_right _ (List.mem_singleton_self _)))
      · exact .inl stays
    · exact .inr (.inl (List.mem_append_left _ before))
    · exact .inr (.inr dropped)
  have grows : ∀ pass, Gone s pass → pass ∈ s.taken ++ [taken] ∨ ∃ key, (pass, key) ∈ s.discarded :=
    fun pass gone => gone.imp_left (List.mem_append_left _)
  cases saved with
  | returned => exact accounted.save pid memory' .returned rfl rfl rfl grows kept accounted.other
  | failed replaced error =>
    exact accounted.save pid memory' (.failed replaced error) rfl rfl rfl grows kept accounted.other
  | stopped replaced => exact accounted.save pid memory' (.stopped replaced) rfl rfl rfl grows kept accounted.other

def Sifts (L : Libraries Token Challenge Stopped) (key : AnchorKey) (held : WalletFile) : Prop :=
  (∀ pass ∈ held.passes, (L.decode_token pass.token).isOk = true) ∨
    ∀ pass ∈ held.passes, underKey L key.key_id pass = false

instance (key : AnchorKey) (held : WalletFile) : Decidable (Sifts L key held) := by unfold Sifts; infer_instance

theorem accounted_refill (accounted : Accounted L s) {pid : Pid} {memory : WalletFile} (is : s.wallet = some (pid, memory))
    (credential : String) (challenge : Challenge) {key : AnchorKey} (answers : List (Except Stopped Token)) (saved : Saved)
    (sifts : Sifts L key memory) :
    Accounted L (refillStep L credential challenge key answers saved pid memory s) := by
  let dropped := (memory.passes.filter fun pass => !underKey L key.key_id pass).map fun pass => (pass, key.key_id)
  let r := refill L credential challenge key answers memory
  have drops : ∀ pass ∈ memory.passes, underKey L key.key_id pass = false → (pass, key.key_id) ∈ dropped :=
    fun pass here apart => List.mem_map_of_mem (List.mem_filter.mpr ⟨here, by simp [apart]⟩)
  have kept : ∀ pass ∈ s.held, pass ∈ r.memory.passes ∨ pass ∈ s.taken ∨ ∃ key, (pass, key) ∈ s.discarded ++ dropped := by
    intro pass listed
    rcases accounted.carried pid memory is pass listed with here | before | ⟨key', before⟩
    · by_cases under : underKey L key.key_id pass = true
      · rcases refill_passes credential challenge key answers memory (L := L) with stays | ⟨⟨bad, among, e, fails⟩, _⟩
        · left
          rw [stays]
          exact List.mem_append_left _ (List.mem_filter.mpr ⟨here, under⟩)
        · rcases sifts with all | none_
          · have decodes := all bad among
            rw [fails] at decodes
            cases decodes
          · rw [none_ pass here] at under
            cases under
      · exact .inr (.inr ⟨_, List.mem_append_right _ (drops pass here (by simpa using under))⟩)
    · exact .inr (.inl before)
    · exact .inr (.inr ⟨key', List.mem_append_left _ before⟩)
  have grows : ∀ pass, Gone s pass → pass ∈ s.taken ∨ ∃ key, (pass, key) ∈ s.discarded ++ dropped :=
    fun pass gone => gone.imp_right fun ⟨key, before⟩ => ⟨key, List.mem_append_left _ before⟩
  have other : ∀ pass key', (pass, key') ∈ s.discarded ++ dropped → underKey L key' pass = false := by
    intro pass key' listed
    rcases List.mem_append.mp listed with before | here
    · exact accounted.other pass key' before
    · obtain ⟨_, kept, same⟩ := List.mem_map.mp here
      cases same
      simpa using (List.mem_filter.mp kept).2
  unfold refillStep
  dsimp only
  split
  · refine ⟨fun pass listed => (accounted.filed pass listed).imp_right (grows pass), ?_, other⟩
    rintro _ _ ⟨⟩
    exact kept
  cases saved with
  | returned => exact accounted.save pid r.memory .returned rfl rfl rfl grows kept other
  | failed replaced error => exact accounted.save pid r.memory (.failed replaced error) rfl rfl rfl grows kept other
  | stopped replaced => exact accounted.save pid r.memory (.stopped replaced) rfl rfl rfl grows kept other

/-! ### Any run -/

variable [DecidableEq Pid]

def SiftsAt (L : Libraries Token Challenge Stopped) (s : System Pid Stopped) : Act Pid Token Challenge Stopped → Prop
  | .refills pid _ _ (.ok key) _ _ => ∀ memory ∈ s.memory pid, Sifts L key memory
  | .refills _ _ _ (.error _) _ _ | .opens _ _ _ | .takes _ _ _ | .drops _ => True

theorem accounted_step (accounted : Accounted L s) (act : Act Pid Token Challenge Stopped) (sifts : SiftsAt L s act) :
    Accounted L (step L s act) := by
  cases act with
  | opens pid anchor_origin path =>
    unfold step
    dsimp only
    split
    · exact accounted
    split
    · exact ⟨accounted.filed, accounted.carried, accounted.other⟩
    rename_i memory is
    refine ⟨accounted.filed, ?_, accounted.other⟩
    rintro _ _ ⟨⟩
    rw [opened_passes is]
    exact accounted.filed
  | takes pid wanted saved =>
    unfold step
    dsimp only
    split
    · exact accounted
    · rename_i is
      exact accounted_took accounted (memory_eq is) wanted saved
  | refills pid credential challenge directory answers saved =>
    unfold step
    dsimp only
    split
    · exact accounted
    · exact ⟨accounted.filed, accounted.carried, accounted.other⟩
    · rename_i is
      exact accounted_refill accounted (memory_eq is) credential challenge answers saved (sifts _ is)
  | drops pid =>
    refine ⟨accounted.filed, fun other memory is => accounted.carried other memory ?_, accounted.other⟩
    exact (Option.filter_eq_some_iff.mp is).1

theorem obtained_kept (credential : String) (challenge : Challenge) (key : AnchorKey) (answers : List (Except Stopped Token))
    (held : WalletFile) : ∀ pass ∈ (refill L credential challenge key answers held).obtained,
      pass ∈ (refill L credential challenge key answers held).memory.passes := by
  unfold refill
  split
  · exact fun _ none_ => (nomatch none_)
  · exact fun pass listed => List.mem_append_right _ listed

theorem refilled_filed (s : System Pid Stopped) (act : Act Pid Token Challenge Stopped) {report : Refill Stopped}
    (told : (step L s act).told = some (.ok (.refilled report))) :
    ∀ pass ∈ (step L s act).obtained.drop s.obtained.length, pass ∈ (step L s act).file.passes := by
  have unchanged : ∀ t : System Pid Stopped, t.obtained = s.obtained →
      ∀ pass ∈ t.obtained.drop s.obtained.length, pass ∈ t.file.passes := by
    intro t same pass listed
    rw [same, List.drop_length] at listed
    cases listed
  cases act with
  | opens pid anchor_origin path =>
    apply unchanged
    unfold step
    dsimp only
    repeat' split
    all_goals rfl
  | takes pid wanted saved =>
    apply unchanged
    unfold step
    dsimp only
    split
    · rfl
    · unfold tookStep
      repeat' split
      all_goals rfl
  | refills pid credential challenge directory answers saved =>
    revert told
    unfold step
    dsimp only
    split
    · exact fun _ => unchanged _ rfl
    · exact fun _ => unchanged _ rfl
    rename_i memory key _
    unfold refillStep
    dsimp only
    split
    · exact fun told => (nomatch told)
    cases saved with
    | returned =>
      intro _ pass listed
      simp only [Saved.isReturned, if_true, System.save, List.drop_left] at listed
      exact obtained_kept credential challenge key answers memory pass listed
    | failed replaced error => exact fun told => (nomatch told)
    | stopped replaced => exact fun told => (nomatch told)
  | drops pid => exact unchanged _ rfl

/-- Whatever processes open, take and refill, and wherever they fail or stop. -/
theorem wallet_kept {file : File} {acts : List (Act Pid Token Challenge Stopped)}
    (sifts : AlongRun (step L) (SiftsAt L) (System.start file) acts) :
    let s := runWith (step L) (System.start file) acts
    Counted file s ∧ ((file.passes ++ s.obtained).Nodup → s.returned.Nodup) ∧ Accounted L s ∧
      ∀ act report, (step L s act).told = some (.ok (.refilled report)) →
        ∀ pass ∈ (step L s act).obtained.drop s.obtained.length, pass ∈ (step L s act).file.passes := by
  intro s
  have counted : Counted file s :=
    runWith_invariant (I := Counted file) (fun _ act counted => counted_step counted act) counted_start acts
  refine ⟨counted, fun once => List.nodup_iff_count_le_one.mpr fun pass => ?_,
    runWith_keeps (I := Accounted L) (fun _ act accounted sifts => accounted_step accounted act sifts) accounted_start sifts,
    fun act _ told => refilled_filed s act told⟩
  have few := List.nodup_iff_count_le_one.mp once pass
  rw [List.count_append] at few
  have most := (counted pass).1
  omega

abbrev SampleToken := Bytes × Bytes

def zeros : Bytes := List.replicate 32 0

def sampleText : String := String.ofList ("AAI".toList ++ List.replicate 469 'A')

def sampleLibraries : Libraries SampleToken Unit String where
  decode_token text :=
    if text = sampleText then .ok (zeros, zeros) else .error "a held pass is not base64url: Invalid symbol 33, offset 0."
  encode_token _ := .ok sampleText
  challenge_digest token := token.1
  token_key_id token := token.2
  digest_of _ := .ok zeros
  origin_info _ := ["news.example"]
  hex bytes := String.ofList (List.replicate (2 * bytes.length) '0')
  encode _ := ""
  redacting _ stopped := stopped

def samplePass : HeldPass := ⟨["news.example"], sampleText⟩

def sampleWallet (passes : List HeldPass) : File := .wallet ⟨"https://anchor.example", none, none, passes⟩

def sampleOpens : Act Bool SampleToken Unit String := .opens false "https://anchor.example" "/home/passes/anchor.example.json"

def sampleRefills : Act Bool SampleToken Unit String := .refills false "secret" () (.ok ⟨zeros, []⟩) [] .returned

instance (s : System Pid Stopped) (act : Act Pid Token Challenge Stopped) : Decidable (SiftsAt L s act) := by
  cases act with
  | refills pid credential challenge directory answers saved =>
    cases directory with
    | error e => exact isTrue trivial
    | ok key =>
      show Decidable (∀ memory ∈ s.memory pid, Sifts L key memory)
      infer_instance
  | _ => exact isTrue trivial

theorem wallet_kept_sample : Accounted sampleLibraries
    (runWith (step sampleLibraries) (System.start (sampleWallet [samplePass])) [sampleOpens, sampleRefills]) :=
  (wallet_kept (by decide +kernel)).2.2.1

omit [DecidableEq Pid] in
theorem lost_of {pass : HeldPass} (file : pass ∉ s.file.passes) (taken : pass ∉ s.taken)
    (dropped : pass ∉ s.discarded.map Prod.fst) : ¬(pass ∈ s.file.passes ∨ Gone s pass) := by
  rintro (here | here | ⟨key, here⟩)
  · exact file here
  · exact taken here
  · exact dropped (List.mem_map_of_mem here)

/-- The refill that meets a pass that does not decode fails and empties the wallet, and the next one saves that. -/
theorem wallet_emptied :
    ¬∀ acts : List (Act Bool SampleToken Unit String), Accounted sampleLibraries
      (runWith (step sampleLibraries) (System.start (sampleWallet [samplePass, ⟨["news.example"], "!"⟩])) acts) := by
  intro kept
  have accounted := (kept [sampleOpens, sampleRefills, sampleRefills]).filed samplePass (by decide +kernel)
  exact lost_of (by decide +kernel) (by decide +kernel) (by decide +kernel) accounted

end CommonMeasure.Passes
