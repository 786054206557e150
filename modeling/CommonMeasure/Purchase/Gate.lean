import CommonMeasure.Admission.Policy

namespace CommonMeasure.Purchase

open Admission

structure Checks where
  fits : Bool
  refusal_reason : String

structure Ledger where
  checks : Except String Checks
  /-- The reservation's line: its id, once written. -/
  append : Except String String
  /-- The periods exhausted, each in words. -/
  state : Except String (List String)
  settle : Except String Unit
  release : Except String Unit

inductive ReserveOutcome where
  | nothingDeclared
  | reserved (reservation : String)
  | reservedWithBreach (reservation : String) (checks : Checks)
  | declined (checks : Checks)

structure AllowanceContext where
  principal : String
  /-- Whether the principal declares an allowance at all. -/
  declared : Bool

def Ledger.reserve (ledger : Ledger) (declared allow_breach : Bool) : Except String ReserveOutcome :=
  if !declared then .ok .nothingDeclared
  else
    match ledger.checks with
    | .error error => .error error
    | .ok checks =>
      if !checks.fits && !allow_breach then .ok (.declined checks)
      else
        match ledger.append with
        | .error error => .error error
        | .ok reservation => .ok (if checks.fits then .reserved reservation else .reservedWithBreach reservation checks)

structure GateDecision where
  reservation : Option String
  ruling : Option Ruling
  /-- Why the ledger could not be asked, where it could not. -/
  fault : Option String

section

variable (T : Texts) (context : AllowanceContext) (ledger : Ledger) (mode : PolicyMode)

def unreadable_ruling (error : String) : Ruling :=
  .breach mode ("Principal " ++ T.debug context.principal ++
    " holds a cumulative allowance whose ledger could not be consulted: " ++ error)

def reserve_decision : GateDecision :=
  match ledger.reserve context.declared (mode ≠ .strict) with
  | .ok .nothingDeclared => ⟨none, none, none⟩
  | .ok (.reserved reservation) => ⟨some reservation, none, none⟩
  | .ok (.reservedWithBreach reservation checks) => ⟨some reservation, some (.breach mode checks.refusal_reason), none⟩
  | .ok (.declined checks) => ⟨none, some (.breach mode checks.refusal_reason), none⟩
  | .error error => ⟨none, some (unreadable_ruling T context mode error), some error⟩

def pre_dispatch (declared_price : Option Money) : GateDecision :=
  if !context.declared then ⟨none, none, none⟩
  else
    match declared_price with
    | some _ => reserve_decision T context ledger mode
    | none =>
      match ledger.state with
      | .ok [] => ⟨none, none, none⟩
      | .ok exhausted =>
        ⟨none, some (.breach mode ("Principal " ++ T.debug context.principal ++ " is over their cumulative allowance: " ++
          String.intercalate "; " exhausted ++
          "; this provider declares no price, so nothing further can be accounted before dispatch.")), none⟩
      | .error error => ⟨none, some (unreadable_ruling T context mode error), some error⟩

def allowance_gate (charge : AcquisitionCharge) (trial_covered : Bool) : GateDecision :=
  if !context.declared then ⟨none, none, none⟩
  else if trial_covered then ⟨none, none, none⟩
  else
    match charge.money with
    | none =>
      ⟨none, some (.breach mode ("Principal " ++ T.debug context.principal ++
        " holds a cumulative allowance and the quote is " ++ (match charge.native with
          | some quoted => quoted.amount ++ " " ++ quoted.unit
          | none => "no price at all") ++ ", which a monetary allowance cannot be checked against; buying at an " ++
        "unverifiable price is declined rather than discovered on the receipt.")), none⟩
    | some _ => reserve_decision T context ledger mode

end

structure GateDecision.Coherent (decision : GateDecision) (mode : PolicyMode) : Prop where
  refused : ∀ ruling, decision.ruling = some ruling → ruling.is_refusal = true → decision.reservation = none
  faulted : ∀ fault, decision.fault = some fault → mode = .strict →
    ∃ ruling, decision.ruling = some ruling ∧ ruling.is_refusal = true
  unheld : decision.fault.isSome = true → decision.reservation = none

section

variable {T : Texts} {context : AllowanceContext} {ledger : Ledger} {mode : PolicyMode}

theorem coherent_open : (⟨none, none, none⟩ : GateDecision).Coherent mode :=
  ⟨fun _ held => (nomatch held), fun _ held => (nomatch held), fun held => (nomatch held)⟩

theorem coherent_breach (reason : String) : (⟨none, some (.breach mode reason), none⟩ : GateDecision).Coherent mode :=
  ⟨fun _ _ _ => rfl, fun _ held => (nomatch held), fun held => (nomatch held)⟩

theorem coherent_unreadable (error : String) :
    (⟨none, some (unreadable_ruling T context mode error), some error⟩ : GateDecision).Coherent mode := by
  refine ⟨fun _ _ _ => rfl, fun fault _ strict => ⟨_, rfl, ?_⟩, fun _ => rfl⟩
  subst strict
  rfl

theorem reserve_allows {declared allow_breach : Bool} {reservation : String} {checks : Checks}
    (breached : ledger.reserve declared allow_breach = .ok (.reservedWithBreach reservation checks)) :
    allow_breach = true := by
  unfold Ledger.reserve at breached
  split at breached
  · cases breached
  split at breached
  · cases breached
  split at breached
  · cases breached
  · rename_i room
    split at breached
    · cases breached
    · split at breached
      · cases breached
      · rename_i short
        simpa [short] using room

theorem reserve_decision_coherent : (reserve_decision T context ledger mode).Coherent mode := by
  unfold reserve_decision
  split
  · exact coherent_open
  · exact ⟨fun _ held => (nomatch held), fun _ held => (nomatch held), fun held => (nomatch held)⟩
  · rename_i reservation checks breached
    refine ⟨?_, fun _ held => (nomatch held), fun held => (nomatch held)⟩
    rintro _ ⟨⟩ refused
    have lenient := reserve_allows breached
    rw [breach_refused refused] at lenient
    exact absurd lenient (by decide)
  · exact coherent_breach _
  · exact coherent_unreadable _

theorem pre_dispatch_coherent (declared_price : Option Money) :
    (pre_dispatch T context ledger mode declared_price).Coherent mode := by
  unfold pre_dispatch
  split
  · exact coherent_open
  split
  · exact reserve_decision_coherent
  split
  · exact coherent_open
  · exact coherent_breach _
  · exact coherent_unreadable _

theorem allowance_gate_coherent (charge : AcquisitionCharge) (trial_covered : Bool) :
    (allowance_gate T context ledger mode charge trial_covered).Coherent mode := by
  unfold allowance_gate
  split
  · exact coherent_open
  split
  · exact coherent_open
  split
  · exact coherent_breach _
  · exact reserve_decision_coherent

end

end CommonMeasure.Purchase
