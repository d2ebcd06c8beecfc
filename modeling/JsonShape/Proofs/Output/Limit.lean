import JsonShape.Proofs.Input.Limit
import JsonShape.Proofs.Output.Record
import JsonShape.Proofs.Output.View

/-!
# Writing without a limit

Definitions are looked up only so often inside one another. A limit decides whether there is an
answer, and not which: what is answered within a limit is answered within every greater one
(`callAt_le`, `reportAt_le`). So an output writes what some limit answers (`Writes`, `Reports`).
-/

namespace JsonShape

namespace Output

open Input (Le)

variable {checked checked' : Reporter} {unchecked unchecked' : Caller} {defs : Dict Output}
  {o : Output} {view : Option String} {v : Json}

/-! ## More is answered -/

/-- **What is written for definitions is written for shapes**: whatever `unchecked` answers stays if
`unchecked'` answers more. -/
theorem callWith_le
    (h : ∀ name base view v, Le (unchecked name base view v) (unchecked' name base view v))
    (o : Output) (view : Option String) (v : Json) :
    Le (callWith unchecked o view v) (callWith unchecked' o view v) := by
  induction o generalizing view v with
  | text _ | number | integer | boolean | null => exact Le.refl _
  | object properties ih =>
    rw [callWith_object, callWith_object]
    refine (Le.mapM fun p hp => Le.map _ ?_).map _
    unfold callProperty
    split
    · exact Le.refl _
    · exact (ih p (mem_of_mem_inForce hp) none (p.read v)).map _
  | merge parent child ihp ihc =>
    exact (ihp view v).bind fun _ => (ihc view v).bind fun _ => Le.refl _
  | list item ih =>
    cases v with
    | array xs => exact (Le.mapM fun x _ => ih view x).map _
    | _ => exact Le.refl _
  | optional inner ih =>
    cases v with
    | null => exact Le.refl _
    | _ => exact ih view _
  | described inner _ ih | referenced inner _ ih => exact ih view v
  | viaMap inner f ih => exact ih view (f v)
  | viewed earlier base later ihe ihb ihl =>
    rw [(alike_viewed ..).call, (alike_viewed ..).call]
    exact chosen_viewed_induction
      (P := fun o => Le (callWith unchecked o view v) (callWith unchecked' o view v))
      (fun e he => ihe e he view v) (ihb view v) (fun e he => ihl e he view v) view
  | cond test holds otherwise ihh iho =>
    rw [callWith, callWith]
    split
    · exact ihh view v
    · exact iho view v
  | chain base views ihb ihv =>
    rw [(alike_chain ..).call, (alike_chain ..).call]
    exact chosen_induction
      (P := fun o => Le (callWith unchecked o view v) (callWith unchecked' o view v))
      (ihb view v) (fun e he => ihv e he view v) view
  | defer name base => exact h name base view v

/-- **What is reported for definitions is reported for shapes**: whatever `checked` answers stays if
`checked'` answers more. -/
theorem reportWith_le
    (h : ∀ name base view v, Le (checked name base view v) (checked' name base view v))
    (o : Output) (view : Option String) (v : Json) :
    Le (reportWith checked o view v) (reportWith checked' o view v) := by
  induction o generalizing view v with
  | text _ | number | integer | boolean | null => exact Le.refl _
  | object properties ih =>
    rw [reportWith_object, reportWith_object]
    refine (Le.mapM fun p hp => Le.map _ ?_).map _
    unfold reportProperty
    split
    · exact Le.refl _
    · exact (ih p (mem_of_mem_inForce hp) none (p.read v)).map _
  | merge parent child ihp ihc =>
    exact (ihp view v).bind fun _ => (ihc view v).bind fun _ => Le.refl _
  | list item ih =>
    cases v with
    | array xs => exact (Le.mapM fun x _ => ih view x).map _
    | _ => exact Le.refl _
  | optional inner ih =>
    cases v with
    | null => exact Le.refl _
    | _ => exact ih view _
  | described inner _ ih | referenced inner _ ih => exact ih view v
  | viaMap inner f ih => exact ih view (f v)
  | viewed earlier base later ihe ihb ihl =>
    rw [(alike_viewed ..).report, (alike_viewed ..).report]
    exact chosen_viewed_induction
      (P := fun o => Le (reportWith checked o view v) (reportWith checked' o view v))
      (fun e he => ihe e he view v) (ihb view v) (fun e he => ihl e he view v) view
  | cond test holds otherwise ihh iho =>
    rw [reportWith, reportWith]
    split
    · exact ihh view v
    · exact iho view v
  | chain base views ihb ihv =>
    rw [(alike_chain ..).report, (alike_chain ..).report]
    exact chosen_induction
      (P := fun o => Le (reportWith checked o view v) (reportWith checked' o view v))
      (ihb view v) (fun e he => ihv e he view v) view
  | defer name base => exact h name base view v

/-! ## Limits -/

/-- What is written for a definition within a limit. -/
def callLookup (defs : Dict Output) (limit : Nat) : Caller :=
  fun name base view v => callAt defs limit (.defer name base) view v

/-- What is reported for a definition within a limit. -/
def reportLookup (defs : Dict Output) (limit : Nat) : Reporter :=
  fun name base view v => reportAt defs limit (.defer name base) view v

theorem callAt_eq (limit : Nat) (o : Output) (view : Option String) (v : Json) :
    callAt defs limit o view v = callWith (callLookup defs limit) o view v := by
  cases limit <;> rfl

theorem reportAt_eq (limit : Nat) (o : Output) (view : Option String) (v : Json) :
    reportAt defs limit o view v = reportWith (reportLookup defs limit) o view v := by
  cases limit <;> rfl

theorem callLookup_zero (name : String) (base : Bool) (view : Option String) (v : Json) :
    callLookup defs 0 name base view v = none := rfl

theorem callLookup_succ (limit : Nat) (name : String) (base : Bool) (view : Option String)
    (v : Json) : callLookup defs (limit + 1) name base view v =
      (resolve? defs name base).bind fun o => callAt defs limit o view v := rfl

theorem reportLookup_zero (name : String) (base : Bool) (view : Option String) (v : Json) :
    reportLookup defs 0 name base view v = none := rfl

theorem reportLookup_succ (limit : Nat) (name : String) (base : Bool) (view : Option String)
    (v : Json) : reportLookup defs (limit + 1) name base view v =
      (resolve? defs name base).bind fun o => reportAt defs limit o view v := rfl

theorem callAt_le_succ (limit : Nat) (o : Output) (view : Option String) (v : Json) :
    Le (callAt defs limit o view v) (callAt defs (limit + 1) o view v) := by
  induction limit generalizing o view v with
  | zero =>
    rw [callAt_eq, callAt_eq]
    exact callWith_le (fun _ _ _ _ r hr => by simp [callLookup_zero] at hr) o view v
  | succ limit ih =>
    rw [callAt_eq, callAt_eq]
    refine callWith_le (fun name base view v => ?_) o view v
    rw [callLookup_succ, callLookup_succ]
    exact (Le.refl _).bind fun o => ih o view v

theorem reportAt_le_succ (limit : Nat) (o : Output) (view : Option String) (v : Json) :
    Le (reportAt defs limit o view v) (reportAt defs (limit + 1) o view v) := by
  induction limit generalizing o view v with
  | zero =>
    rw [reportAt_eq, reportAt_eq]
    exact reportWith_le (fun _ _ _ _ r hr => by simp [reportLookup_zero] at hr) o view v
  | succ limit ih =>
    rw [reportAt_eq, reportAt_eq]
    refine reportWith_le (fun name base view v => ?_) o view v
    rw [reportLookup_succ, reportLookup_succ]
    exact (Le.refl _).bind fun o => ih o view v

theorem callAt_le {limit limit' : Nat} (h : limit ≤ limit') (o : Output) (view : Option String)
    (v : Json) : Le (callAt defs limit o view v) (callAt defs limit' o view v) := by
  induction h with
  | refl => exact Le.refl _
  | step _ ih => exact ih.trans (callAt_le_succ _ o view v)

theorem reportAt_le {limit limit' : Nat} (h : limit ≤ limit') (o : Output) (view : Option String)
    (v : Json) : Le (reportAt defs limit o view v) (reportAt defs limit' o view v) := by
  induction h with
  | refl => exact Le.refl _
  | step _ ih => exact ih.trans (reportAt_le_succ _ o view v)

/-! ## No limit -/

/-- The output writes `w` for `v`, if definitions are looked up often enough: there is no bound on
the lookups, as there is in `call`. -/
def Writes (defs : Dict Output) (o : Output) (view : Option String) (v w : Json) : Prop :=
  ∃ limit, callAt defs limit o view v = some w

/-- The output has the result `r` for `v`, if definitions are looked up often enough: there is no
bound on the lookups, as there is in `report`. -/
def Reports (defs : Dict Output) (o : Output) (view : Option String) (v : Json) (r : Checked) :
    Prop :=
  ∃ limit, reportAt defs limit o view v = some r

end Output

end JsonShape
