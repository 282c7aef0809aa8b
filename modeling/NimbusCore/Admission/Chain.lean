import NimbusCore.Registry.Registry

/-!
# Admission — the chain

`internal/admission/admission.go`.  `Chain.Admit` makes the replica count of the request at least
one and asks the validators in turn.  A validator gets the request by pointer: it answers with the
request as it leaves it, and an error text.  The pod spec of a request is the caller's own, so what
a validator writes to it is seen by the caller; the replica count is a copy.
-/

namespace NimbusCore.Admission

open Api Registry

/-- `admission.Request`. -/
structure Request where
  ns : String
  name : String
  labels : Dict String String
  spec : Option PodSpec
  replicas : Int32

/-- `Validator`: the request as it becomes, and the error. -/
abbrev Validator := Request → Reg (Request × Option String)

/-- The loop of `Chain.Admit`. -/
def admitLoop : List Validator → Request → Reg (Request × Option String)
  | [], req => return (req, none)
  | v :: vs, req => do
    match ← v req with
    | (req, some err) => return (req, some ("admission: " ++ err))
    | (req, none) => admitLoop vs req

/-- A loop over one validator. -/
theorem admitLoop_singleton (v : Validator) (req : Request) :
    admitLoop [v] req = v req >>= fun r => pure (r.1, r.2.map ("admission: " ++ ·)) := by
  rw [admitLoop]
  congr 1
  funext r
  obtain ⟨req', _ | err⟩ := r <;> rfl

/-- The replica count the validators see. -/
def normalise (req : Request) : Request :=
  if req.replicas ≤ 0 then { req with replicas := 1 } else req

/-- `Chain.Admit`. -/
def chainAdmit (validators : List Validator) (req : Request) : Reg (Request × Option String) :=
  admitLoop validators (normalise req)

/-- The validator lets the request pass, and leaves it as it is. -/
def Passes (req : Request) (v : Validator) : Prop := v req = pure (req, none)

/-- Validators that all let the request pass make a chain that does. -/
theorem admitLoop_pass {req : Request} :
    ∀ {validators : List Validator}, (∀ v ∈ validators, Passes req v) →
      admitLoop validators req = pure (req, none)
  | [], _ => rfl
  | v :: vs, h => by
    obtain ⟨hv, hvs⟩ := List.forall_mem_cons.mp h
    rw [admitLoop, hv, pure_bind_reg]
    exact admitLoop_pass hvs

end NimbusCore.Admission
