/-!
# Work in place

A host keeps one machine, and its calls change it in place: whatever a call has changed before it gives
up stays changed.  Here a call is written down change by change, as work that may be refused on the way.
What it does to a machine as a value is then a theorem about the call.

* `InPlace` — work that changes a state and may be refused; `InPlace.on` carries it out.

Principal result: `InPlace.on_bind` — work goes on with the state that was left, unless it was refused.
-/

set_option autoImplicit false

namespace DotMatrix

/-- Work that changes a state of type `σ`, and may be refused for a reason of type `ε`.  When it is
refused, the state keeps what was changed until then. -/
abbrev InPlace (ε σ α : Type) := ExceptT ε (StateM σ) α

/-- Carries out work on a state. -/
def InPlace.on {ε σ α : Type} (work : InPlace ε σ α) (s : σ) : Except ε α × σ := work.run.run s

namespace InPlace

variable {ε σ α β : Type} (s : σ)

/-- **What follows is carried out on what was left**, unless the work was refused. -/
theorem on_bind (work : InPlace ε σ α) (next : α → InPlace ε σ β) :
    (work >>= next).on s =
      match work.on s with
      | (.ok a, t) => (next a).on t
      | (.error e, t) => (.error e, t) := by
  unfold on ExceptT.run StateT.run
  simp only [bind, ExceptT.bind, ExceptT.mk, StateT.bind, ExceptT.bindCont]
  cases work s with
  | mk result t => cases result <;> rfl

theorem on_pure (a : α) : (pure a : InPlace ε σ α).on s = (.ok a, s) := rfl

theorem on_throw (e : ε) : (throw e : InPlace ε σ α).on s = (.error e, s) := rfl

/-- What needs no state changes none. -/
theorem on_lift (result : Except ε α) : (liftM result : InPlace ε σ α).on s = (result, s) := rfl

theorem on_get : (get : InPlace ε σ σ).on s = (.ok s, s) := rfl

theorem on_set (t : σ) : (set t : InPlace ε σ PUnit).on s = (.ok ⟨⟩, t) := rfl

theorem on_modify (f : σ → σ) : (modify f : InPlace ε σ PUnit).on s = (.ok ⟨⟩, f s) := rfl

theorem on_ite (p : Prop) [Decidable p] (work other : InPlace ε σ α) :
    (if p then work else other).on s = if p then work.on s else other.on s := by
  split <;> rfl

end InPlace

end DotMatrix
